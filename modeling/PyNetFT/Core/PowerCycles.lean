/-
PyNetFT.Core.PowerCycles — recovery of the FT tracker from a sensor power
cycle.

After the cycle the FT counter starts again in the low range. The tracker
takes the new numbering over once two ascending low numbers arrive with
no session beginning between them: the first is remembered in
`restartCandidate`, which `beginSession` clears while the old baseline
stays.

§1 is the tracker under any placement of session starts:
`recovers_iff_settles` says exactly when it gets out.

§2 is where a client places them. The history keeps the records that
`handle_record` classified and, for each, whether the trackers have been
reset since the one before. Under reconnect every new session resets
them; under fail-stop every backward record ends its run, so a candidate
never meets the next record. `power_cycle_recovery` is the result over
all runs, `power_cycle_not_recovered` the client that is faulted by the
same sensor again and again.
-/
import PyNetFT.Core.SequenceTheorems
import PyNetFT.Core.Receptions
import PyNetFT.Lib.Mealy

namespace PyNetFT.Core

open PyNetFT.Lib

/-! ## §1 The tracker -/

/-- A record as the FT tracker sees it: has a session begun since the
record before, and the record's number. -/
structure FtRecord where
  begins : Bool
  number : UInt32
  deriving DecidableEq

/-- At most two backward records, then a new baseline (by a restart or
by a forward step), then forward records only. -/
def Recovers (kinds : List FtSequenceKind) : Prop :=
  ∃ k ≤ 2, ∃ rest, kinds = List.replicate k .backward ++ rest ∧
    (rest = [] ∨ ∃ head tail, rest = head :: tail ∧
      (head = .restart ∨ head = .forward) ∧ ∀ kind ∈ tail, kind = .forward)

theorem recovers_rebaseline {k : Nat} {head : FtSequenceKind} {tail : List FtSequenceKind}
    (hk : k ≤ 2) (hhead : head = .restart ∨ head = .forward)
    (htail : ∀ kind ∈ tail, kind = .forward) :
    Recovers (List.replicate k .backward ++ head :: tail) :=
  ⟨k, hk, head :: tail, rfl, Or.inr ⟨head, tail, rfl, hhead, htail⟩⟩

/-- A short run cannot hold a third backward record. -/
theorem recovers_of_short {k : Nat} (hk : k ≤ 2) : Recovers (List.replicate k .backward) :=
  ⟨k, hk, [], by simp, Or.inl rfl⟩

theorem not_recovers_of_three {rest : List FtSequenceKind} :
    ¬ Recovers (.backward :: .backward :: .backward :: rest) := by
  rintro ⟨k, hk, tail, heq, htail⟩
  have hthird : tail.head? = some .backward := by
    match k, hk with
    | 0, _ | 1, _ | 2, _ =>
      simp only [List.replicate, List.cons_append, List.nil_append, List.cons.injEq, true_and]
        at heq
      rw [← heq]
      rfl
  rcases htail with rfl | ⟨head, rest', rfl, hhead, -⟩
  · cases hthird
  · cases hthird
    rcases hhead with h | h <;> cases h

namespace FtSequenceTracker

variable {t : FtSequenceTracker}

/-- `begin_session`, if one is due, and `observe`. -/
def take (t : FtSequenceTracker) (r : FtRecord) : FtSequenceKind × FtSequenceTracker :=
  (if r.begins then t.beginSession else t).observe r.number

/-- A new baseline. -/
def rebased (t : FtSequenceTracker) (x : UInt32) : FtSequenceTracker :=
  { t with previous := x, hasRestartCandidate := false }

/-- The baseline kept, a number behind it remembered. -/
def heldBack (t : FtSequenceTracker) (x : UInt32) : FtSequenceTracker :=
  { t with hasRestartCandidate := true, restartCandidate := x }

/-- The candidate meets the record: no session has begun since, and the
restart test passes. -/
def Meets (t : FtSequenceTracker) (r : FtRecord) : Prop :=
  r.begins = false ∧ t.restarts r.number = true

theorem take_forward {r : FtRecord} (hl : t.hasLast = true) (hne : r.number ≠ t.previous)
    (hd : r.number - t.previous < 0x80000000) : t.take r = (.forward, t.rebased r.number) := by
  unfold take
  split
  · exact observe_forward (t := t.beginSession) hl hne hd
  · exact observe_forward hl hne hd

theorem take_restart {r : FtRecord} (hl : t.hasLast = true) (hne : r.number ≠ t.previous)
    (hd : ¬ r.number - t.previous < 0x80000000) (hmeets : t.Meets r) :
    t.take r = (.restart, t.rebased r.number) := by
  obtain ⟨hbegins, hr⟩ := hmeets
  unfold take
  rw [if_neg (by simp [hbegins])]
  exact observe_restart hl hne hd hr

theorem take_backward {r : FtRecord} (hl : t.hasLast = true) (hne : r.number ≠ t.previous)
    (hd : ¬ r.number - t.previous < 0x80000000) (hmeets : ¬ t.Meets r) :
    t.take r = (.backward, t.heldBack r.number) := by
  unfold take
  split
  · exact observe_backward (t := t.beginSession) hl hne hd (restarts_no_candidate rfl)
  · rename_i hbegins
    refine observe_backward hl hne hd (Bool.eq_false_iff.mpr fun hr => hmeets ⟨?_, hr⟩)
    simpa using hbegins

/-- The number held back meets the next one if no session begins between
them. -/
theorem heldBack_meets {a : UInt32} {r : FtRecord} (hb : restartMinBaseline ≤ t.previous)
    (hlt : a < r.number) (hx : r.number ≤ restartLowMax) :
    (t.heldBack a).Meets r ↔ r.begins = false := by
  have hr : (t.heldBack a).restarts r.number = true := restarts_of_ascending hb rfl hlt hx
  unfold Meets
  rw [hr]
  simp

/-- Once the baseline is in the low range, ascending low numbers are
forward, wherever sessions begin. -/
theorem outputs_forward {word : List FtRecord} (hl : t.hasLast = true)
    (hascending : word.Pairwise (·.number < ·.number)) (hgt : ∀ r ∈ word, t.previous < r.number)
    (hlow : ∀ r ∈ word, r.number ≤ restartLowMax) :
    ∀ kind ∈ Mealy.outputs take t word, kind = .forward := by
  induction word generalizing t with
  | nil => simp
  | cons r rest ih =>
    rw [List.pairwise_cons] at hascending
    obtain ⟨hne, hahead⟩ := low_ahead (hgt r (by simp)) (hlow r (by simp))
    intro kind hkind
    rw [Mealy.outputs, take_forward hl hne hahead, List.mem_cons] at hkind
    rcases hkind with rfl | hkind
    · rfl
    · exact ih (t := t.rebased r.number) hl hascending.2 hascending.1
        (fun r' hr' => hlow r' (by simp [hr'])) kind hkind

/-- Up to two records held back, and then one that moves the baseline. -/
theorem recovers_of_rebased {k : Nat} {r : FtRecord} {rest : List FtRecord}
    {kind : FtSequenceKind} (hk : k ≤ 2) (hkind : kind = .restart ∨ kind = .forward)
    (hl : t.hasLast = true) (hascending : (r :: rest).Pairwise (·.number < ·.number))
    (hlow : ∀ r' ∈ rest, r'.number ≤ restartLowMax) :
    Recovers (List.replicate k .backward ++
      kind :: Mealy.outputs take (t.rebased r.number) rest) := by
  rw [List.pairwise_cons] at hascending
  exact recovers_rebaseline hk hkind (outputs_forward hl hascending.2 hascending.1 hlow)

/-- Fewer than three records arrive; or the first is ahead of the old
baseline, or meets a candidate that was there before; or no session
begins between the first and the second, or between the second and the
third. -/
def Settles (t : FtSequenceTracker) : List FtRecord → Prop
  | first :: second :: third :: _ =>
      first.number - t.previous < 0x80000000 ∨ t.Meets first ∨
        second.begins = false ∨ third.begins = false
  | _ => True

theorem settles_of_first {a : FtRecord} {rest : List FtRecord}
    (h : a.number - t.previous < 0x80000000 ∨ t.Meets a) : t.Settles (a :: rest) := by
  unfold Settles
  split
  · rename_i heq
    cases heq
    rcases h with hahead | hmeets
    · exact .inl hahead
    · exact .inr (.inl hmeets)
  · trivial

theorem settles_of_second {a b : FtRecord} {rest : List FtRecord} (h : b.begins = false) :
    t.Settles (a :: b :: rest) := by
  unfold Settles
  split
  · rename_i heq
    cases heq
    exact .inr (.inr (.inl h))
  · trivial

/-- Exactly when a power cycle is recovered from, for any placement of
session starts. -/
theorem recovers_iff_settles {word : List FtRecord} (hl : t.hasLast = true)
    (hb : restartMinBaseline ≤ t.previous)
    (hascending : word.Pairwise (·.number < ·.number))
    (hlow : ∀ r ∈ word, r.number ≤ restartLowMax) :
    Recovers (Mealy.outputs take t word) ↔ t.Settles word := by
  match word with
  | [] => exact iff_of_true (recovers_of_short (k := 0) (by omega)) trivial
  | a :: rest =>
    have hane := low_ne_baseline hb (hlow a (by simp))
    have hrest : ∀ r ∈ rest, r.number ≤ restartLowMax := fun r hr => hlow r (by simp [hr])
    by_cases hahead : a.number - t.previous < 0x80000000
    · rw [Mealy.outputs, take_forward hl hane hahead]
      exact iff_of_true (recovers_of_rebased (k := 0) (by omega) (.inr rfl) hl hascending hrest)
        (settles_of_first (.inl hahead))
    by_cases hmeets : t.Meets a
    · rw [Mealy.outputs, take_restart hl hane hahead hmeets]
      exact iff_of_true (recovers_of_rebased (k := 0) (by omega) (.inl rfl) hl hascending hrest)
        (settles_of_first (.inr hmeets))
    rw [Mealy.outputs, take_backward hl hane hahead hmeets]
    match rest with
    | [] => exact iff_of_true (recovers_of_short (k := 1) (by omega)) trivial
    | b :: rest =>
      have hab : a.number < b.number := (List.pairwise_cons.mp hascending).1 b (by simp)
      have hascending := (List.pairwise_cons.mp hascending).2
      have hbne := low_ne_baseline hb (hrest b (by simp))
      have hbehind := behind_of_behind hb hab (hrest b (by simp)) hahead
      have hbmeets := heldBack_meets hb hab (hrest b (by simp))
      have hrest : ∀ r ∈ rest, r.number ≤ restartLowMax := fun r hr => hrest r (by simp [hr])
      cases hsecond : b.begins with
      | false =>
        rw [Mealy.outputs, take_restart (t := t.heldBack a.number) hl hbne hbehind
          (hbmeets.mpr hsecond)]
        exact iff_of_true
          (recovers_of_rebased (k := 1) (by omega) (.inl rfl) hl hascending hrest)
          (settles_of_second hsecond)
      | true =>
        have hback : (t.heldBack a.number).take b = (.backward, t.heldBack b.number) :=
          take_backward (t := t.heldBack a.number) hl hbne hbehind (by simp [hbmeets, hsecond])
        rw [Mealy.outputs, hback]
        match rest with
        | [] => exact iff_of_true (recovers_of_short (k := 2) (by omega)) trivial
        | c :: rest =>
          have hbc : b.number < c.number := (List.pairwise_cons.mp hascending).1 c (by simp)
          have hascending := (List.pairwise_cons.mp hascending).2
          have hcne := low_ne_baseline hb (hrest c (by simp))
          have hcbehind := behind_of_behind hb hbc (hrest c (by simp)) hbehind
          have hcmeets := heldBack_meets hb hbc (hrest c (by simp))
          have hrest : ∀ r ∈ rest, r.number ≤ restartLowMax :=
            fun r hr => hrest r (by simp [hr])
          have hsettles : t.Settles (a :: b :: c :: rest) ↔ c.begins = false := by
            simp [Settles, hahead, hmeets, hsecond]
          rw [hsettles]
          cases hthird : c.begins with
          | false =>
            rw [Mealy.outputs, take_restart (t := t.heldBack b.number) hl hcne hcbehind
              (hcmeets.mpr hthird)]
            exact iff_of_true
              (recovers_of_rebased (k := 2) (by omega) (.inl rfl) hl hascending hrest) rfl
          | true =>
            rw [Mealy.outputs, take_backward (t := t.heldBack b.number) hl hcne hcbehind
              (by simp [hcmeets, hthird])]
            exact iff_of_false not_recovers_of_three (by simp)

/-- No record meets a candidate: a session begins before it, or none is
held. -/
def Unmet (t : FtSequenceTracker) (word : List FtRecord) : Prop :=
  ∀ before r after, word = before ++ r :: after →
    r.begins = true ∨ (Mealy.final take t before).hasRestartCandidate = false

theorem Unmet.of_append {before after : List FtRecord} (h : t.Unmet (before ++ after)) :
    (Mealy.final take t before).Unmet after := by
  intro middle r rest hsplit
  rw [← Mealy.final_append]
  exact h (before ++ middle) r rest (by rw [hsplit, List.append_assoc])

theorem Unmet.concat {word : List FtRecord} {r : FtRecord} (h : t.Unmet word)
    (hr : r.begins = true ∨ (Mealy.final take t word).hasRestartCandidate = false) :
    t.Unmet (word ++ [r]) := by
  intro before r' after hsplit
  rcases List.eq_nil_or_concat after with rfl | ⟨rest, last, rfl⟩
  · obtain ⟨rfl, rfl⟩ := List.append_singleton_inj.mp hsplit
    exact hr
  · refine h before r' rest ?_
    have hsplit' : word ++ [r] = (before ++ r' :: rest) ++ [last] := by simpa using hsplit
    exact (List.append_singleton_inj.mp hsplit').1

/-- Then only the first number decides. -/
theorem Unmet.settles_iff {word : List FtRecord} (h : t.Unmet word) (hl : t.hasLast = true)
    (hb : restartMinBaseline ≤ t.previous)
    (hascending : word.Pairwise (·.number < ·.number))
    (hlow : ∀ r ∈ word, r.number ≤ restartLowMax) :
    t.Settles word ↔ word.length ≤ 2 ∨
      ∃ r ∈ word.head?, r.number - t.previous < 0x80000000 := by
  match word with
  | [] | [_] | [_, _] => simp [Settles]
  | a :: b :: c :: rest =>
    have hab : a.number < b.number := (List.pairwise_cons.mp hascending).1 b (by simp)
    have hfirst : ¬ t.Meets a := by
      rintro ⟨hbegins, hr⟩
      rcases h [] a _ rfl with hbegun | hnone
      · rw [hbegins] at hbegun
        cases hbegun
      · rw [Mealy.final_nil] at hnone
        rw [restarts_no_candidate hnone] at hr
        cases hr
    have hlength : ¬ (a :: b :: c :: rest).length ≤ 2 := by simp
    by_cases hahead : a.number - t.previous < 0x80000000
    · simp [Settles, hahead]
    have hback : t.take a = (.backward, t.heldBack a.number) :=
      take_backward hl (low_ne_baseline hb (hlow a (by simp))) hahead hfirst
    have hsecond : b.begins = true := by
      refine (h [a] b _ rfl).resolve_right ?_
      rw [Mealy.final, hback]
      simp [heldBack]
    have hback' : (t.heldBack a.number).take b = (.backward, t.heldBack b.number) :=
      take_backward (t := t.heldBack a.number) hl (low_ne_baseline hb (hlow b (by simp)))
        (behind_of_behind hb hab (hlow b (by simp)) hahead) (by simp [Meets, hsecond])
    have hthird : c.begins = true := by
      refine (h [a, b] c _ rfl).resolve_right ?_
      rw [Mealy.final, Mealy.final, hback, hback']
      simp [heldBack]
    simp [Settles, hahead, hfirst, hsecond, hthird]

/-- A baseline past the low range was observed. -/
theorem hasLast_of_baseline {word : List FtRecord}
    (hb : restartMinBaseline ≤ (Mealy.final take {} word).previous) :
    (Mealy.final take {} word).hasLast = true := by
  have hrun := Mealy.final_invariant (s := ({} : FtSequenceTracker))
    (K := fun _ _ t => t.hasLast = false → t.previous = 0) take word (fun _ => rfl) (by
      intro before r after _ _ hnone
      unfold take at hnone
      rw [(observe_previous_cases _ r.number).1] at hnone
      cases hnone) word [] (List.append_nil word).symm
  by_contra hl
  rw [hrun (by simpa using hl)] at hb
  exact absurd hb (by decide)

theorem observe_no_candidate {x : UInt32} (hc : t.hasRestartCandidate = false)
    (hback : (t.observe x).1 ≠ .backward) : (t.observe x).2.hasRestartCandidate = false := by
  unfold observe at hback ⊢
  split
  · exact hc
  · split
    · rfl
    · dsimp only
      split
      · rfl
      · split
        · rfl
        · simp_all

end FtSequenceTracker

/-! ## §2 The client -/

open FtSequenceTracker

/-- The records that `handle_record` classified, in order and with the
answers of the tracker, and whether the trackers have been reset since
the last of them. -/
structure FtHistory where
  begins : Bool := false
  records : List (FtRecord × FtSequenceKind) := []
  deriving DecidableEq

def FtHistory.atWorker (h : FtHistory) (s : Shared) : WorkerPc → FtHistory
  | .resetTrackers => { h with begins := true }
  | .classify _ record _ =>
      { begins := false
        records := h.records ++
          [(⟨h.begins, record.ftSequence⟩, (s.ftSequence.observe record.ftSequence).1)] }
  | _ => h

def FtHistory.record (h : FtHistory) (s : Sys) (l : Label) (_ : Sys) : FtHistory :=
  match l with
  | .worker w _ => ((s.workers w).map fun t => h.atWorker s.shared t.pc).getD h
  | _ => h

/-- The client with that history. -/
def trackerLts (P : Platform) (config : Config) : Lts (Sys × FtHistory) Label :=
  (clientLts P config).recorded {} FtHistory.record

/-- The tracker behind some of these records. -/
def trackerAfter (records : List (FtRecord × FtSequenceKind)) : FtSequenceTracker :=
  Mealy.final take {} (records.map Prod.fst)

/-- The tracker as the history has it. -/
def FtHistory.tracker (h : FtHistory) : FtSequenceTracker :=
  if h.begins then (trackerAfter h.records).beginSession else trackerAfter h.records

/-- What a step of the receive thread makes of the tracker. -/
def WorkerPc.tracker (t : FtSequenceTracker) : WorkerPc → FtSequenceTracker
  | .resetTrackers => t.beginSession
  | .classify _ record _ => (t.observe record.ftSequence).2
  | _ => t

/-- The places from which the thread gets to its next record without a
new session: none that holds a result for `run`. -/
def WorkerPc.continues : WorkerPc → Bool
  | .firstDeadline => true
  | .callback _ outcome _ | .callbackFailed _ outcome _ | .delivered _ outcome _ => outcome.isNone
  | pc => decide (pc.part = .transport) || decide (pc.part = .receive) || decide (pc.part = .record)

section Worker

variable {P : Platform} {config : Config} {w : Nat} {choice : WorkerChoice} {s s' : Shared}
  {pc pc' : WorkerPc}

theorem classifyRecord_ftSequence (config : Config) (s : Impl) (record : RawRecord)
    (receivedAt : TimePoint) :
    (s.classifyRecord config record receivedAt).1.ftSequence
      = (s.ftSequence.observe record.ftSequence).2 := by
  unfold Impl.classifyRecord
  dsimp only
  split <;> rfl

theorem closeSession_ftSequence (s : Shared) (event : SendEvent) :
    (s.closeSession event).ftSequence = s.ftSequence := by
  unfold Shared.closeSession Shared.stopStreaming Shared.attempt
  dsimp only
  split <;> rfl

theorem publish_ftSequence (s : Impl) (code : FaultCode) (message : String) :
    (s.publish code message).ftSequence = s.ftSequence := by
  unfold Impl.publish
  split <;> rfl

theorem applyConfiguration_ftSequence (s : Impl) (configuration : SensorConfiguration) :
    (s.applyConfiguration configuration).ftSequence = s.ftSequence := by
  unfold Impl.applyConfiguration
  split
  · rfl
  · dsimp only
    split <;> rfl

theorem runStep_tracker {backoff backoff' : ℚ} (hpart : pc.part = .run)
    (h : runStep config w choice backoff s pc = some (pc', backoff', s')) :
    s'.ftSequence = pc.tracker s.ftSequence := by
  cases pc <;> cases hpart <;> dsimp only [runStep] at h
  case sessionDone outcome =>
    split at h
    · cases h
      exact closeSession_ftSequence s _
    · cases h
  case latchFault code message =>
    cases h
    exact publish_ftSequence s.toImpl code message
  case finishClose =>
    split at h
    · cases h
      exact closeSession_ftSequence s _
    · cases h
  case finishState =>
    cases h
    split <;> rfl
  all_goals
    (repeat' split at h) <;> cases h <;> rfl

theorem configureStep_tracker (hpart : pc.part = .configure)
    (h : configureStep P config w choice s pc = some (pc', s')) :
    s'.ftSequence = pc.tracker s.ftSequence := by
  cases pc <;> cases hpart <;> dsimp only [configureStep] at h
  case applyConfiguration configuration =>
    cases h
    exact applyConfiguration_ftSequence s.toImpl configuration
  all_goals
    (repeat' split at h) <;> cases h <;> rfl

theorem recordStep_tracker (hpart : pc.part = .record)
    (h : recordStep P config w choice s pc = some (pc', s')) :
    s'.ftSequence = pc.tracker s.ftSequence := by
  cases pc <;> cases hpart <;> dsimp only [recordStep] at h
  case classify rx record receivedAt =>
    have htracker := classifyRecord_ftSequence config s.toImpl record receivedAt
    rcases hclass : s.toImpl.classifyRecord config record receivedAt with ⟨impl, _ | decision⟩
    all_goals
      rw [hclass] at h htracker
      dsimp only at h
      (repeat' split at h) <;> cases h <;> exact htracker
  all_goals
    (repeat' split at h) <;> cases h <;> rfl

/-- Two places touch the tracker. -/
theorem workerStep_tracker {t t' : Worker} (h : workerStep P config w choice t s = some (t', s')) :
    s'.ftSequence = t.pc.tracker s.ftSequence := by
  obtain ⟨pc, backoff, nested⟩ := t
  cases (workerStep_parts h).2 with
  | run hpart hr => exact runStep_tracker hpart hr
  | configure hpart hr => exact configureStep_tracker hpart hr
  | record hpart hr => exact recordStep_tracker hpart hr
  | connect hpart hr =>
    cases pc <;> cases hpart <;> dsimp only [connectStep] at hr <;> (repeat' split at hr) <;>
      cases hr <;> rfl
  | transport hpart hr =>
    cases pc <;> cases hpart <;> dsimp only [transportStep] at hr <;> (repeat' split at hr) <;>
      cases hr <;> rfl
  | receive hpart hr =>
    cases pc <;> cases hpart <;> dsimp only [receiveStep] at hr <;> (repeat' split at hr) <;>
      cases hr <;> rfl

theorem recordReturned_continues (rx : Reception) (outcome : Option SessionResult) :
    (recordReturned rx outcome).continues = outcome.isNone := by
  cases outcome <;> rfl

theorem callbackFailureOutcome_isNone {policy : RecoveryPolicy} {outcome : Option SessionResult}
    (h : (callbackFailureOutcome policy outcome).isNone = true) : outcome.isNone = true := by
  cases outcome with
  | none => rfl
  | some result =>
    rw [callbackFailureOutcome, if_pos (.inl rfl)] at h
    cases h

/-- Under fail-stop a backward record has a result for `run`. -/
theorem recordOutcome_backward (severity : StatusSeverity) :
    (recordOutcome .failStop severity .backward).isNone = false := by
  cases severity <;> rfl

theorem classifyRecord_outcome {config : Config} {s impl : Impl} {record : RawRecord}
    {receivedAt : TimePoint} {decision : RecordDecision}
    (h : s.classifyRecord config record receivedAt = (impl, .ok decision)) :
    decision.outcome = recordOutcome config.recoveryPolicy (classifyStatus record.status)
      (s.ftSequence.observe record.ftSequence).1 := by
  unfold Impl.classifyRecord at h
  dsimp only at h
  split at h
  · cases h
  · cases h
    rfl

/-- A record that is not the last of its session was not the last
before either, and under fail-stop not backward. -/
theorem recordStep_continues (hpart : pc.part = .record)
    (h : recordStep P config w choice s pc = some (pc', s')) (hafter : pc'.continues = true) :
    pc.continues = true ∧ (config.recoveryPolicy = .failStop →
      ∀ rx record receivedAt, pc = .classify rx record receivedAt →
        (s.ftSequence.observe record.ftSequence).1 ≠ .backward) := by
  cases pc <;> cases hpart <;> dsimp only [recordStep] at h
  case classify rx record receivedAt =>
    refine ⟨rfl, ?_⟩
    rintro hpolicy _ _ _ hpc hback
    cases hpc
    rcases hclass : s.toImpl.classifyRecord config record receivedAt with ⟨impl, _ | decision⟩
    · rw [hclass] at h
      cases h
      cases hafter
    have houtcome : decision.outcome.isNone = false := by
      rw [classifyRecord_outcome hclass, hpolicy, hback]
      exact recordOutcome_backward _
    rw [hclass] at h
    dsimp only at h
    split at h
    · cases h
      rw [recordReturned_continues, houtcome] at hafter
      cases hafter
    · split at h
      · cases h
        cases hafter
      · split at h <;> cases h <;> rw [WorkerPc.continues, houtcome] at hafter <;> cases hafter
  case callback rx outcome sample =>
    refine ⟨?_, by simp⟩
    (repeat' split at h) <;> cases h <;> exact hafter
  case callbackFailed rx outcome message =>
    cases h
    rw [recordReturned_continues] at hafter
    exact ⟨callbackFailureOutcome_isNone hafter, by simp⟩
  case delivered rx outcome sample =>
    cases h
    rw [recordReturned_continues] at hafter
    exact ⟨hafter, by simp⟩

theorem configureStep_continues (hpart : pc.part = .configure)
    (h : configureStep P config w choice s pc = some (pc', s')) (hafter : pc'.continues = true) :
    pc = .resetTrackers ∨ pc = .firstDeadline := by
  cases pc <;> cases hpart <;> dsimp only [configureStep] at h
  case resetTrackers => exact .inl rfl
  case firstDeadline => exact .inr rfl
  all_goals
    (repeat' split at h) <;> cases h <;> cases hafter

/-- A thread gets to a record from a reset of the trackers, or from the
record before. -/
theorem workerStep_continues {t t' : Worker}
    (h : workerStep P config w choice t s = some (t', s')) (hafter : t'.pc.continues = true) :
    t.pc = .resetTrackers ∨ t.pc.continues = true ∧ (config.recoveryPolicy = .failStop →
      ∀ rx record receivedAt, t.pc = .classify rx record receivedAt →
        (s.ftSequence.observe record.ftSequence).1 ≠ .backward) := by
  obtain ⟨pc, backoff, nested⟩ := t
  have hother (hcontinues : pc.continues = true) (hpart : pc.part ≠ .record) :
      pc.continues = true ∧ (config.recoveryPolicy = .failStop →
        ∀ rx record receivedAt, pc = .classify rx record receivedAt →
          (s.ftSequence.observe record.ftSequence).1 ≠ .backward) :=
    ⟨hcontinues, fun _ _ _ _ hpc => absurd (congrArg WorkerPc.part hpc) hpart⟩
  cases (workerStep_parts h).2 with
  | run hpart hr =>
    exfalso
    cases pc <;> cases hpart <;> dsimp only [runStep] at hr <;> (repeat' split at hr) <;>
      cases hr <;> cases hafter
  | connect hpart hr =>
    exfalso
    cases pc <;> cases hpart <;> dsimp only [connectStep] at hr <;> (repeat' split at hr) <;>
      cases hr <;> cases hafter
  | configure hpart hr =>
    refine (configureStep_continues hpart hr hafter).imp_right ?_
    rintro rfl
    exact hother rfl (by simp [hpart])
  | transport hpart => exact .inr (hother (by cases pc <;> cases hpart <;> rfl) (by simp [hpart]))
  | receive hpart => exact .inr (hother (by cases pc <;> cases hpart <;> rfl) (by simp [hpart]))
  | record hpart hr => exact .inr (recordStep_continues hpart hr hafter)

theorem WorkerPc.running_of_continues {pc : WorkerPc} (h : pc.continues = true) :
    pc.phase ≠ .done := by
  intro hdone
  rw [WorkerPc.phase_eq_done hdone] at h
  cases h

end Worker

section System

variable {P : Platform} {config : Config} {s s' : Sys} {h : FtHistory}

/-- No call touches the tracker. -/
theorem CallMove.ftSequence {c : Nat} {caller : Option Nat} {pc pc' : CallPc}
    (hmove : CallMove config c caller s pc pc' s') :
    s'.shared.ftSequence = s.shared.ftSequence := by
  cases hmove with
  | command event =>
    simp only [Sys.withShared, Shared.stopCommand, Shared.stopStreaming]
    split <;> rfl
  | stopIdle =>
    dsimp only [Shared.markStopped]
    split <;> rfl
  | reapStop =>
    dsimp only [Sys.reap, Sys.withShared, Shared.markStopped]
    split <;> rfl
  | bias first second =>
    dsimp only [Sys.withShared, Shared.bias]
    split
    · rfl
    · split
      · rfl
      · split <;> rfl
  | republish =>
    dsimp only
    split
    · exact publish_ftSequence _ _ _
    · rfl
  | wait | take | save | reset | arm | spawn | disarm | restoreRecord | restoreData | clearLatch
  | request | reapStart | snapshot => rfl

theorem ftSequence_of_step {l : Label} (hl : ∀ w choice, l ≠ .worker w choice)
    (hstep : s.step P config l = some s') : s'.shared.ftSequence = s.shared.ftSequence := by
  cases Sys.step_move hstep with
  | tick => rfl
  | places label places => rw [places.shared]
  | call _ _ _ move => exact move.ftSequence
  | worker choice => exact absurd rfl (hl _ choice)

/-- The members follow the history; under fail-stop no thread goes on to
a record while a candidate is held, and none has met one. -/
structure FtWf (config : Config) (s : Sys) (h : FtHistory) : Prop where
  tracker : s.shared.ftSequence = h.tracker
  answers : h.records.map Prod.snd = Mealy.outputs take {} (h.records.map Prod.fst)
  held : config.recoveryPolicy = .failStop → ∀ w t, s.workers w = some t →
    t.pc.continues = true → s.shared.ftSequence.hasRestartCandidate = false
  unmet : config.recoveryPolicy = .failStop → Unmet {} (h.records.map Prod.fst)

theorem FtHistory.tracker_observe (h : FtHistory) (x : UInt32) :
    h.tracker.observe x = (trackerAfter h.records).take ⟨h.begins, x⟩ := rfl

/-- The history of a step of the thread is as the tracker has it. -/
theorem FtHistory.atWorker_tracker {u : Shared} (hu : u.ftSequence = h.tracker) (pc : WorkerPc) :
    (h.atWorker u pc).tracker = pc.tracker u.ftSequence := by
  cases pc
  case resetTrackers =>
    rw [hu]
    dsimp only [FtHistory.atWorker, FtHistory.tracker, WorkerPc.tracker]
    rw [if_pos rfl]
    split <;> rfl
  case classify rx record receivedAt =>
    dsimp only [FtHistory.atWorker, FtHistory.tracker, WorkerPc.tracker]
    rw [if_neg Bool.false_ne_true, trackerAfter, List.map_append, Mealy.final_append, hu,
      h.tracker_observe]
    rfl
  all_goals exact hu.symm

theorem FtHistory.atWorker_answers {u : Shared} (hu : u.ftSequence = h.tracker)
    (hanswers : h.records.map Prod.snd = Mealy.outputs take {} (h.records.map Prod.fst))
    (pc : WorkerPc) :
    (h.atWorker u pc).records.map Prod.snd
      = Mealy.outputs take {} ((h.atWorker u pc).records.map Prod.fst) := by
  cases pc
  case classify rx record receivedAt =>
    simp only [FtHistory.atWorker, List.map_append, List.map_cons, List.map_nil]
    rw [Mealy.outputs_concat, hanswers, hu, h.tracker_observe]
    rfl
  all_goals exact hanswers

theorem FtHistory.atWorker_unmet {u : Shared} (hu : u.ftSequence = h.tracker)
    (hunmet : Unmet {} (h.records.map Prod.fst)) {pc : WorkerPc}
    (hheld : pc.continues = true → u.ftSequence.hasRestartCandidate = false) :
    Unmet {} ((h.atWorker u pc).records.map Prod.fst) := by
  cases pc
  case classify rx record receivedAt =>
    simp only [FtHistory.atWorker, List.map_append, List.map_cons, List.map_nil]
    refine hunmet.concat ?_
    have hnone := hheld rfl
    rw [hu, FtHistory.tracker] at hnone
    cases hbegins : h.begins with
    | true => exact .inl rfl
    | false =>
      rw [hbegins, if_neg Bool.false_ne_true] at hnone
      exact .inr hnone
  all_goals exact hunmet

/-- What a thread holds when it goes on to a record. -/
theorem FtWf.held_step (hs : FtWf config s h) (hwf : s.Wf) (hcounts : s.CountsWf)
    (hrequested : s.StopRequested) (hpolicy : config.recoveryPolicy = .failStop) {l : Label}
    (hstep : s.step P config l = some s') : ∀ w t, s'.workers w = some t →
      t.pc.continues = true → s'.shared.ftSequence.hasRestartCandidate = false := by
  intro w t' ht' hafter
  cases thread_step hwf hcounts hrequested hstep ht' (WorkerPc.running_of_continues hafter) with
  | own choice t label ht _ step =>
    rw [workerStep_tracker step]
    rcases workerStep_continues step hafter with hreset | ⟨hbefore, hback⟩
    · rw [hreset]
      rfl
    have hnone := hs.held hpolicy w t ht hbefore
    cases hpc : t.pc
    case classify rx record receivedAt =>
      exact observe_no_candidate hnone (hback hpolicy rx record receivedAt hpc)
    case resetTrackers => rfl
    all_goals exact hnone
  | spawned head =>
    rw [head] at hafter
    cases hafter
  | beside t label ht same =>
    rw [ftSequence_of_step label hstep]
    exact hs.held hpolicy w t ht (same ▸ hafter)

theorem FtWf.step (hs : FtWf config s h) (hwf : s.Wf) (hcounts : s.CountsWf)
    (hrequested : s.StopRequested) {l : Label} (hstep : s.step P config l = some s') :
    FtWf config s' (h.record s l s') := by
  have hheld := fun hpolicy => hs.held_step hwf hcounts hrequested hpolicy hstep
  cases Sys.step_move hstep with
  | @worker w t t' shared' choice ht step =>
    have hrecord : ∀ u, h.record s (.worker w choice) u = h.atWorker s.shared t.pc := by
      intro u
      simp [FtHistory.record, ht]
    rw [hrecord]
    exact ⟨(workerStep_tracker step).trans (FtHistory.atWorker_tracker hs.tracker t.pc).symm,
      FtHistory.atWorker_answers hs.tracker hs.answers t.pc, hheld,
      fun hpolicy => FtHistory.atWorker_unmet hs.tracker (hs.unmet hpolicy)
        (hs.held hpolicy w t ht)⟩
  | tick ticks => exact ⟨hs.tracker, hs.answers, hheld, hs.unmet⟩
  | call choice hc step move =>
    exact ⟨move.ftSequence.trans hs.tracker, hs.answers, hheld, hs.unmet⟩
  | places label places =>
    have hrecord : h.record s l s' = h := by
      rcases label with ⟨c, caller, op, rfl⟩ | ⟨c, rfl⟩ <;> rfl
    rw [hrecord]
    exact ⟨places.shared ▸ hs.tracker, hs.answers, hheld, hs.unmet⟩

theorem ftWf_of_reachable {p : Sys × FtHistory} (hreach : (trackerLts P config).Reachable p) :
    FtWf config p.1 p.2 := by
  refine Lts.Reach.recorded_invariant ?_ ?_ hreach
  · rintro s ⟨clock, -, rfl⟩
    refine ⟨rfl, rfl, fun _ _ _ ht => (by cases ht), fun _ before r after hsplit => ?_⟩
    simp at hsplit
  · intro s h l t _ hs hstep hft
    exact hft.step (wf_of_reachable hs) (countsWf_of_reachable hs)
      (stopRequested_of_reachable hs) hstep

/-- **Recovery from a power cycle.** In every run of a client, take any
stretch of the records it handled whose FT numbers ascend in the low
range, met by a baseline past that range. At most two of them are
backward before the tracker takes a new baseline, and the rest are
forward, exactly if fewer than three arrived, or the first was ahead of
the old baseline or met a candidate held from before, or no session began
between the first and the second or between the second and the third.
Under fail-stop that leaves a short stretch and a first number ahead of
the baseline: no record there meets a candidate. -/
theorem power_cycle_recovery (P : Platform) (config : Config) {s : Sys} {h : FtHistory}
    (hreach : (trackerLts P config).Reachable (s, h))
    {before cycle : List (FtRecord × FtSequenceKind)} (hsplit : h.records = before ++ cycle)
    (hbase : 0x10000 ≤ (trackerAfter before).previous)
    (hascending : (cycle.map (·.1.number)).Pairwise (· < ·))
    (hlow : ∀ r ∈ cycle, r.1.number ≤ 0xffff) :
    s.shared.ftSequence = h.tracker ∧
      (Recovers (cycle.map Prod.snd) ↔ (trackerAfter before).Settles (cycle.map Prod.fst)) ∧
      (config.recoveryPolicy = .failStop →
        (Recovers (cycle.map Prod.snd) ↔ cycle.length ≤ 2 ∨
          ∃ r ∈ cycle.head?, r.1.number - (trackerAfter before).previous < 0x80000000)) := by
  have hft : FtWf config s h := ftWf_of_reachable hreach
  have hl : (trackerAfter before).hasLast = true := hasLast_of_baseline hbase
  have hword : (cycle.map Prod.fst).Pairwise (·.number < ·.number) := by
    rw [List.pairwise_map] at hascending ⊢
    exact hascending
  have hlow' : ∀ r ∈ cycle.map Prod.fst, r.number ≤ restartLowMax := by
    intro r hr
    obtain ⟨q, hq, rfl⟩ := List.mem_map.mp hr
    exact hlow q hq
  have hkinds : cycle.map Prod.snd
      = Mealy.outputs take (trackerAfter before) (cycle.map Prod.fst) := by
    have hanswers := hft.answers
    rw [hsplit, List.map_append, List.map_append, Mealy.outputs_append] at hanswers
    refine (List.append_inj' hanswers ?_).2
    rw [Mealy.length_outputs, List.length_map, List.length_map]
  have hiff : Recovers (cycle.map Prod.snd)
      ↔ (trackerAfter before).Settles (cycle.map Prod.fst) := by
    rw [hkinds]
    exact recovers_iff_settles hl hbase hword hlow'
  refine ⟨hft.tracker, hiff, fun hpolicy => ?_⟩
  have hunmet : (trackerAfter before).Unmet (cycle.map Prod.fst) := by
    have hall := hft.unmet hpolicy
    rw [hsplit, List.map_append] at hall
    exact hall.of_append
  rw [hiff, hunmet.settles_iff hl hbase hword hlow', List.length_map]
  simp

end System

/-! ## The same sensor again -/

/-- A record with a small FT number and nothing else. -/
def lowRecord (ft : UInt8) : List UInt8 := [0, 0, 0, 0, 0, 0, 0, ft] ++ List.replicate 28 0

/-- `start` on an idle client, and the session up to its receive loop. -/
def runOpens (w : Nat) : List Label :=
  [.call w .go, .call w .go, .call w .go, .call w .go,
   .worker w .go, .worker w .go, .worker w .go, .worker w (.http (.failed "")), .worker w .go,
   .worker w .go, .worker w (.connect none), .worker w (.send .sent), .worker w .go,
   .worker w .go]

/-- A datagram up to the end of its classification. -/
def recordHandled (w : Nat) (bytes : List UInt8) : List Label :=
  [.worker w .go, .worker w .go, .worker w .go, .worker w (.poll (.ready false)), .worker w .go,
   .worker w (.recv (.datagram bytes)), .worker w .go, .worker w .go, .worker w .go]

/-- The fault of a backward record, up to the end of its thread, and the
next `start` up to the join. -/
def runFaults (w : Nat) : List Label :=
  [.worker w (.send .sent), .worker w .go, .worker w .go, .worker w (.send .sent), .worker w .go,
   .worker w .go, .invoke (w + 1) none (.start none), .call (w + 1) .go, .call (w + 1) .go]

/-- The number `0x20000`; then the sensor is off and on again, and sends
1, 2 and 3 into three runs. -/
def powerCycleRun : List Label :=
  .invoke 0 none (.start none) :: runOpens 0 ++
  recordHandled 0 ([0, 0, 0, 0, 0, 2, 0, 0] ++ List.replicate 28 0) ++ [.worker 0 .go] ++
  recordHandled 0 (lowRecord 1) ++ runFaults 0 ++
  runOpens 1 ++ recordHandled 1 (lowRecord 2) ++ runFaults 1 ++
  runOpens 2 ++ recordHandled 2 (lowRecord 3)

theorem powerCycle_reached : ∃ s h, (trackerLts exactPlatform faultingConfig).Reachable (s, h) ∧
    h.records = [(⟨true, 0x20000⟩, .first)] ++
      [(⟨false, 1⟩, .backward), (⟨true, 2⟩, .backward), (⟨true, 3⟩, .backward)] := by
  have hinit : (trackerLts exactPlatform faultingConfig).Reachable
      (Sys.new faultingConfig 1000, {}) := .init ⟨⟨1000, overrideConfig_valid, rfl⟩, rfl⟩
  obtain ⟨⟨s, h⟩, hs, hp⟩ := Lts.exists_of_exec (l := powerCycleRun)
    (p := fun p : Sys × FtHistory => decide (p.2.records = [(⟨true, 0x20000⟩, .first)] ++
      [(⟨false, 1⟩, .backward), (⟨true, 2⟩, .backward), (⟨true, 3⟩, .backward)]))
    hinit (by decide +kernel)
  exact ⟨s, h, hs, of_decide_eq_true hp⟩

/-- That sensor is not taken over: no candidate met a record. -/
theorem power_cycle_recovery_faulted :
    ∃ s h before cycle, (trackerLts exactPlatform faultingConfig).Reachable (s, h) ∧
      h.records = before ++ cycle ∧ cycle.length = 3 ∧ ¬ Recovers (cycle.map Prod.snd) := by
  obtain ⟨s, h, hs, hrecords⟩ := powerCycle_reached
  refine ⟨s, h, _, _, hs, hrecords, rfl, fun hrecovers => ?_⟩
  have hfaulted := ((power_cycle_recovery exactPlatform faultingConfig hs hrecords (by decide)
    (by decide) (by simp)).2.2 rfl).mp hrecovers
  exact absurd hfaulted (by decide)

/-- The three records are all backward, and each faulted its run: every
`start` clears the candidate and keeps the baseline `0x20000`. -/
theorem power_cycle_not_recovered :
    ¬ ∀ (P : Platform) (config : Config) (s : Sys) (h : FtHistory)
      (before cycle : List (FtRecord × FtSequenceKind)),
      (trackerLts P config).Reachable (s, h) → h.records = before ++ cycle →
      0x10000 ≤ (trackerAfter before).previous →
      (cycle.map (·.1.number)).Pairwise (· < ·) → (∀ r ∈ cycle, r.1.number ≤ 0xffff) →
      Recovers (cycle.map Prod.snd) := by
  intro hall
  obtain ⟨s, h, hs, hrecords⟩ := powerCycle_reached
  exact not_recovers_of_three
    (hall exactPlatform faultingConfig s h _ _ hs hrecords (by decide) (by decide) (by simp))

end PyNetFT.Core
