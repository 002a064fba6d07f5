/-
PyNetFT.Bindings.QueueReaders — the sample queue under every interleaving
of its writers, closers and readers.

`queueLts` is the queue with any number of readers. A reader captures a
generation (`generation()`, or the entry of the one-argument `read_for`),
sleeps as long as its predicate does not hold, and decides under the
lock; in between the others may push, close and reset as they like. A
push whose allocation fails has made room and added nothing.

The history keeps what the queue forgets: everything pushed since the
last reset and since the construction, what has left the queue and how,
and which readers have seen a `close()` since their capture.
-/
import PyNetFT.Bindings.SampleQueue
import PyNetFT.Lib.Lts
import Mathlib.Logic.Function.Basic

namespace PyNetFT.Bindings

open PyNetFT.Lib

variable {α : Type}

/-! ## The system -/

/-- The queue and the generations its readers have captured. -/
structure QueueSys (α : Type) where
  queue : SampleQueue α
  readers : Nat → Option Nat := fun _ => none

inductive QueueLabel (α : Type) where
  | push (sample : α)
  | pushFails
  | close
  | reset
  | capture (reader : Nat)
  | finish (reader : Nat) (expired : Bool)
  deriving DecidableEq

/-- What the reader gets if it decides now. -/
def QueueSys.answer (s : QueueSys α) (reader : Nat) (expired : Bool) :
    Option (ReadResult α × SampleQueue α) :=
  (s.readers reader).bind fun generation => s.queue.readFor generation expired

def QueueSys.step (s : QueueSys α) : QueueLabel α → Option (QueueSys α)
  | .push sample => some { s with queue := s.queue.push sample }
  | .pushFails => some { s with queue := s.queue.makeRoom }
  | .close => some { s with queue := s.queue.close }
  | .reset => some { s with queue := s.queue.reset }
  | .capture reader =>
      some { s with readers := Function.update s.readers reader (some s.queue.closeGeneration) }
  | .finish reader expired => (s.answer reader expired).map fun a => { s with queue := a.2 }

/-! ## The history -/

/-- How a sample left the queue. -/
inductive Removal (α : Type) where
  | taken (reader : Nat) (sample : α)
  | evicted (sample : α)
  deriving DecidableEq

def Removal.sample : Removal α → α
  | .taken _ sample | .evicted sample => sample

def Removal.isEvicted : Removal α → Bool
  | .taken _ _ => false
  | .evicted _ => true

/-- The samples that went to readers, in the order they left. -/
def takenSamples (removed : List (Removal α)) : List α :=
  (removed.filter fun r => !r.isEvicted).map Removal.sample

/-- `pushed` and `removed` begin anew with a reset, `everPushed` and
`returned` do not. -/
structure QueueHistory (α : Type) where
  pushed : List α := []
  removed : List (Removal α) := []
  everPushed : List α := []
  returned : List α := []
  closedSince : Nat → Bool := fun _ => false

/-- What a push throws out to make room. -/
def SampleQueue.evicts (q : SampleQueue α) : List (Removal α) :=
  if q.samples.length = q.capacity then q.samples.head?.toList.map .evicted else []

def QueueHistory.record (h : QueueHistory α) (s : QueueSys α) (l : QueueLabel α)
    (_ : QueueSys α) : QueueHistory α :=
  match l with
  | .push sample =>
      { h with
        pushed := h.pushed ++ [sample]
        removed := h.removed ++ s.queue.evicts
        everPushed := h.everPushed ++ [sample] }
  | .pushFails => { h with removed := h.removed ++ s.queue.evicts }
  | .close => { h with closedSince := fun _ => true }
  | .reset => { h with pushed := [], removed := [] }
  | .capture reader => { h with closedSince := Function.update h.closedSince reader false }
  | .finish reader expired =>
      match s.answer reader expired with
      | some (.sample sample, _) =>
          { h with
            removed := h.removed ++ [.taken reader sample]
            returned := h.returned ++ [sample] }
      | _ => h

/-- A queue of a given capacity, with that history. -/
def queueLts (α : Type) (capacity : Nat) : Lts (QueueSys α × QueueHistory α) (QueueLabel α) :=
  Lts.recorded
    { init := fun s => ∃ queue, SampleQueue.new capacity = .ok queue ∧ s = { queue := queue }
      step := QueueSys.step }
    {} QueueHistory.record

/-! ## The invariant -/

/-- The queue holds what was pushed and has not left; what left before
the last reset was pushed before it; a reader's generation is current
exactly if nothing was closed since. -/
structure EpochWf (capacity : Nat) (s : QueueSys α) (h : QueueHistory α) : Prop where
  capacity : s.queue.capacity = capacity
  fifo : h.pushed = h.removed.map Removal.sample ++ s.queue.samples
  dropped : h.removed.countP Removal.isEvicted = s.queue.droppedCount
  epochs : ∃ oldPushed oldReturned, h.everPushed = oldPushed ++ h.pushed ∧
    h.returned = oldReturned ++ takenSamples h.removed ∧ oldReturned.Sublist oldPushed
  captured : ∀ reader generation, s.readers reader = some generation →
    generation ≤ s.queue.closeGeneration ∧
      (h.closedSince reader = false ↔ generation = s.queue.closeGeneration)

section Steps

variable {capacity : Nat} {s : QueueSys α} {h : QueueHistory α}

theorem takenSamples_append (a b : List (Removal α)) :
    takenSamples (a ++ b) = takenSamples a ++ takenSamples b := by
  simp [takenSamples]

theorem takenSamples_evicts (q : SampleQueue α) : takenSamples q.evicts = [] := by
  unfold SampleQueue.evicts
  split
  · cases q.samples <;> rfl
  · rfl

/-- The readers get a subsequence of what left the queue. -/
theorem takenSamples_sublist (removed : List (Removal α)) :
    (takenSamples removed).Sublist (removed.map Removal.sample) :=
  List.filter_sublist.map _

/-- Making room: the queue is full, and its oldest sample goes, or
nothing happens. -/
theorem makeRoom_cases (q : SampleQueue α) :
    (q.samples.length = q.capacity ∧ ∃ oldest, q.samples = oldest :: q.makeRoom.samples ∧
        q.evicts = [.evicted oldest] ∧ q.makeRoom.droppedCount = q.droppedCount + 1) ∨
      q.samples.length ≠ q.capacity ∧ q.makeRoom = q ∧ q.evicts = [] := by
  by_cases hfull : q.samples.length = q.capacity
  · have hpositive := q.positive
    obtain ⟨oldest, rest, hsamples⟩ := List.exists_cons_of_length_pos (hfull ▸ hpositive)
    have hroom : q.makeRoom.samples = rest := by
      rw [SampleQueue.makeRoom, if_pos hfull]
      exact congrArg List.tail hsamples
    refine .inl ⟨hfull, oldest, ?_, ?_, ?_⟩
    · rw [hroom, hsamples]
    · rw [SampleQueue.evicts, if_pos hfull, hsamples]
      rfl
    · rw [SampleQueue.makeRoom, if_pos hfull]
  · exact .inr ⟨hfull, by rw [SampleQueue.makeRoom, if_neg hfull],
      by rw [SampleQueue.evicts, if_neg hfull]⟩

@[simp] theorem makeRoom_capacity (q : SampleQueue α) : q.makeRoom.capacity = q.capacity := by
  unfold SampleQueue.makeRoom
  split <;> rfl

theorem EpochWf.makeRoom (hw : EpochWf capacity s h) :
    EpochWf capacity { s with queue := s.queue.makeRoom }
      { h with removed := h.removed ++ s.queue.evicts } where
  capacity := (makeRoom_capacity _).trans hw.capacity
  fifo := by
    rw [hw.fifo]
    rcases makeRoom_cases s.queue with ⟨-, oldest, hsamples, hevicts, -⟩ | ⟨-, hroom, hevicts⟩
    · rw [hevicts, hsamples]
      simp [Removal.sample]
    · rw [hroom, hevicts, List.append_nil]
  dropped := by
    rw [List.countP_append, hw.dropped]
    rcases makeRoom_cases s.queue with ⟨-, oldest, -, hevicts, hcount⟩ | ⟨-, hroom, hevicts⟩
    · rw [hevicts, hcount]
      rfl
    · rw [hroom, hevicts]
      rfl
  epochs := by
    rw [takenSamples_append, takenSamples_evicts, List.append_nil]
    exact hw.epochs
  captured := by
    intro reader generation hreader
    rw [SampleQueue.makeRoom_closeGeneration]
    exact hw.captured reader generation hreader

theorem EpochWf.push (hw : EpochWf capacity s h) (sample : α) :
    EpochWf capacity { s with queue := s.queue.push sample }
      { h with
        pushed := h.pushed ++ [sample]
        removed := h.removed ++ s.queue.evicts
        everPushed := h.everPushed ++ [sample] } where
  capacity := hw.makeRoom.capacity
  fifo := by
    have hroom := hw.makeRoom.fifo
    simp only at hroom
    rw [hroom, List.append_assoc]
    rfl
  dropped := hw.makeRoom.dropped
  epochs := by
    obtain ⟨oldPushed, oldReturned, hpushed, hreturned, hsub⟩ := hw.makeRoom.epochs
    exact ⟨oldPushed, oldReturned, by simp only at hpushed ⊢; rw [hpushed, List.append_assoc],
      hreturned, hsub⟩
  captured := hw.makeRoom.captured

theorem EpochWf.close (hw : EpochWf capacity s h) :
    EpochWf capacity { s with queue := s.queue.close } { h with closedSince := fun _ => true } where
  capacity := hw.capacity
  fifo := hw.fifo
  dropped := hw.dropped
  epochs := hw.epochs
  captured := by
    intro reader generation hreader
    have hle := (hw.captured reader generation hreader).1
    simp only [SampleQueue.close]
    refine ⟨by omega, by simp; omega⟩

theorem EpochWf.reset (hw : EpochWf capacity s h) :
    EpochWf capacity { s with queue := s.queue.reset } { h with pushed := [], removed := [] } where
  capacity := hw.capacity
  fifo := rfl
  dropped := rfl
  epochs := by
    obtain ⟨oldPushed, oldReturned, hpushed, hreturned, hsub⟩ := hw.epochs
    refine ⟨h.everPushed, h.returned, by simp, by simp [takenSamples], ?_⟩
    rw [hpushed, hreturned, hw.fifo]
    exact hsub.append ((takenSamples_sublist _).trans (List.sublist_append_left _ _))
  captured := hw.captured

theorem EpochWf.capture (hw : EpochWf capacity s h) (reader : Nat) :
    EpochWf capacity
      { s with readers := Function.update s.readers reader (some s.queue.closeGeneration) }
      { h with closedSince := Function.update h.closedSince reader false } where
  capacity := hw.capacity
  fifo := hw.fifo
  dropped := hw.dropped
  epochs := hw.epochs
  captured := by
    intro r generation hr
    by_cases heq : r = reader
    · subst heq
      simp only [Function.update_self, Option.some.injEq] at hr
      simp [hr]
    · simp only [Function.update_of_ne heq] at hr ⊢
      exact hw.captured r generation hr

/-- A reader that comes back with a sample took the oldest one. -/
theorem EpochWf.taken (hw : EpochWf capacity s h) (reader : Nat) {sample : α} {q : SampleQueue α}
    (hsamples : s.queue.samples = sample :: q.samples) (hcapacity : q.capacity = s.queue.capacity)
    (hdropped : q.droppedCount = s.queue.droppedCount)
    (hgeneration : q.closeGeneration = s.queue.closeGeneration) :
    EpochWf capacity { s with queue := q }
      { h with
        removed := h.removed ++ [.taken reader sample]
        returned := h.returned ++ [sample] } where
  capacity := hcapacity.trans hw.capacity
  fifo := by
    rw [hw.fifo, hsamples]
    simp [Removal.sample]
  dropped := by
    rw [List.countP_append, hw.dropped, hdropped]
    rfl
  epochs := by
    obtain ⟨oldPushed, oldReturned, hpushed, hreturned, hsub⟩ := hw.epochs
    refine ⟨oldPushed, oldReturned, hpushed, ?_, hsub⟩
    simp only
    rw [takenSamples_append, hreturned, List.append_assoc]
    rfl
  captured := by
    intro r generation hr
    simp only
    rw [hgeneration]
    exact hw.captured r generation hr

theorem readFor_capacity {q q' : SampleQueue α} {generation : Nat} {expired : Bool}
    {result : ReadResult α} (h : q.readFor generation expired = some (result, q')) :
    q'.capacity = q.capacity := by
  unfold SampleQueue.readFor at h
  (repeat' split at h) <;> cases h <;> rfl

theorem EpochWf.step (hw : EpochWf capacity s h) {l : QueueLabel α} {t : QueueSys α}
    (hstep : s.step l = some t) : EpochWf capacity t (h.record s l t) := by
  cases l with
  | push sample =>
    cases hstep
    exact hw.push sample
  | pushFails =>
    cases hstep
    exact hw.makeRoom
  | close =>
    cases hstep
    exact hw.close
  | reset =>
    cases hstep
    exact hw.reset
  | capture reader =>
    cases hstep
    exact hw.capture reader
  | finish reader expired =>
    obtain ⟨⟨result, q⟩, hanswer, rfl⟩ := Option.map_eq_some_iff.mp hstep
    obtain ⟨generation, -, hread⟩ := Option.bind_eq_some_iff.mp hanswer
    simp only [QueueHistory.record, hanswer]
    rcases SampleQueue.readFor_cases hread with ⟨rfl, rfl, -⟩ | ⟨rfl, rfl, -⟩ |
      ⟨sample, rfl, hsamples, -, -, -, hgeneration, hdropped⟩
    · exact hw
    · exact hw
    · exact hw.taken reader hsamples (readFor_capacity hread) hdropped hgeneration

theorem epochWf_of_reachable {p : QueueSys α × QueueHistory α}
    (hr : (queueLts α capacity).Reachable p) : EpochWf capacity p.1 p.2 := by
  refine Lts.Reach.recorded_invariant (I := EpochWf capacity) ?_ ?_ hr
  · rintro s ⟨queue, hnew, rfl⟩
    unfold SampleQueue.new at hnew
    split at hnew
    · cases hnew
    · cases hnew
      exact ⟨rfl, rfl, rfl, ⟨[], [], rfl, rfl, .slnil⟩, fun _ _ hr => by cases hr⟩
  · intro s history l t _ _ hstep hw
    exact hw.step hstep

end Steps

/-! ## The queue as its users see it -/

/-- **A bounded drop-oldest FIFO with epoch-safe readers.** In every
reachable state the queue holds at most `capacity` samples; what was
pushed since the last reset is what has left, in order, followed by what
is queued; what has left was taken by a reader or is counted in
`dropped_count_`; the readers got a subsequence of the pushes, over all
resets too. A step that is no reset drops at most the oldest sample, and
only from a full queue. And a reader that comes back with a sample gets
the oldest one of an open queue that was not closed since its capture. -/
theorem queue_drops_oldest (capacity : Nat) {s : QueueSys α} {h : QueueHistory α}
    (hr : (queueLts α capacity).Reachable (s, h)) :
    s.queue.samples.length ≤ capacity ∧
    h.pushed = h.removed.map Removal.sample ++ s.queue.samples ∧
    h.removed.countP Removal.isEvicted = s.queue.droppedCount ∧
    (takenSamples h.removed).Sublist h.pushed ∧
    h.returned.Sublist h.everPushed ∧
    (∀ l t, l ≠ .reset → s.step l = some t → t.queue.droppedCount = s.queue.droppedCount ∨
      t.queue.droppedCount = s.queue.droppedCount + 1 ∧ s.queue.samples.length = capacity ∧
        ∃ oldest, (h.record s l t).removed = h.removed ++ [.evicted oldest] ∧
          s.queue.samples.head? = some oldest) ∧
    ∀ reader expired sample q, s.answer reader expired = some (.sample sample, q) →
      s.queue.samples = sample :: q.samples ∧ h.closedSince reader = false ∧
        s.queue.isClosed = false := by
  have hw := epochWf_of_reachable hr
  refine ⟨hw.capacity ▸ s.queue.bounded, hw.fifo, hw.dropped, ?_, ?_, ?_, ?_⟩
  · rw [hw.fifo]
    exact (takenSamples_sublist _).trans (List.sublist_append_left _ _)
  · obtain ⟨oldPushed, oldReturned, hpushed, hreturned, hsub⟩ := hw.epochs
    simp only at hpushed hreturned
    rw [hpushed, hreturned, hw.fifo]
    exact hsub.append ((takenSamples_sublist _).trans (List.sublist_append_left _ _))
  · intro l t hl hstep
    -- a push, whether it gets its memory or not, evicts what `makeRoom` evicts
    have hroom : s.queue.makeRoom.droppedCount = s.queue.droppedCount ∨
        s.queue.makeRoom.droppedCount = s.queue.droppedCount + 1 ∧
          s.queue.samples.length = capacity ∧
          ∃ oldest, h.removed ++ s.queue.evicts = h.removed ++ [.evicted oldest] ∧
            s.queue.samples.head? = some oldest := by
      rcases makeRoom_cases s.queue with ⟨hfull, oldest, hsamples, hevicts, hcount⟩ | ⟨-, hroom, -⟩
      · exact .inr ⟨hcount, hfull.trans hw.capacity, oldest, by rw [hevicts], by rw [hsamples]; rfl⟩
      · exact .inl (by rw [hroom])
    cases l with
    | push sample =>
      cases hstep
      exact hroom
    | pushFails =>
      cases hstep
      exact hroom
    | close =>
      cases hstep
      exact .inl rfl
    | reset => exact absurd rfl hl
    | capture reader =>
      cases hstep
      exact .inl rfl
    | finish reader expired =>
      obtain ⟨⟨result, q⟩, hanswer, rfl⟩ := Option.map_eq_some_iff.mp hstep
      obtain ⟨generation, -, hread⟩ := Option.bind_eq_some_iff.mp hanswer
      rcases SampleQueue.readFor_cases hread with ⟨-, rfl, -⟩ | ⟨-, rfl, -⟩ |
        ⟨_, -, -, -, -, -, -, hdropped⟩
      · exact .inl rfl
      · exact .inl rfl
      · exact .inl hdropped
  · intro reader expired sample q hanswer
    obtain ⟨generation, hreader, hread⟩ := Option.bind_eq_some_iff.mp hanswer
    rcases SampleQueue.readFor_cases hread with ⟨hne, -⟩ | ⟨hne, -⟩ |
      ⟨x, hx, hsamples, hopen, hgeneration, -⟩
    · cases hne
    · cases hne
    · cases hx
      exact ⟨hsamples, (hw.captured reader generation hreader).2.mpr hgeneration.symm, hopen⟩

/-- A queue of one: the second push evicts, a reader that captured before
`close()` and `reset()` gets nothing of what comes behind them, and a
later reader gets the new sample. -/
def staleReaderRun : List (QueueLabel Nat) :=
  [.push 1, .push 2, .capture 0, .close, .reset, .push 3, .finish 0 false, .capture 1]

theorem queue_drops_oldest_reader :
    ∃ (s : QueueSys Nat) (h : QueueHistory Nat), (queueLts Nat 1).Reachable (s, h) ∧
      h.pushed = [3] ∧ h.everPushed = [1, 2, 3] ∧ h.returned = [] ∧
      h.closedSince 0 = true ∧ (∃ q, s.answer 0 false = some (.closed, q)) ∧
      (∃ q, s.answer 1 false = some (.sample 3, q) ∧ s.queue.samples = 3 :: q.samples) ∧
      h.closedSince 1 = false := by
  have hinit : (queueLts Nat 1).Reachable
    ({ queue := ⟨1, [], 0, 0, false, by decide, by decide⟩ }, {}) :=
    Lts.Reachable.init ⟨⟨_, rfl, rfl⟩, rfl⟩
  obtain ⟨⟨s, h⟩, hs, hp⟩ := Lts.exists_of_exec (l := staleReaderRun)
    (p := fun p : QueueSys Nat × QueueHistory Nat => decide (p.2.pushed = [3] ∧
      p.2.everPushed = [1, 2, 3] ∧ p.2.returned = [] ∧ p.2.closedSince 0 = true ∧
      (p.1.answer 0 false).map Prod.fst = some .closed ∧
      (p.1.answer 1 false).map Prod.fst = some (.sample 3))) hinit (by decide +kernel)
  obtain ⟨hpushed, hever, hreturned, hclosed, hstale, htaken⟩ := of_decide_eq_true hp
  obtain ⟨⟨_, q₀⟩, hstale, rfl⟩ := Option.map_eq_some_iff.mp hstale
  obtain ⟨⟨_, q₁⟩, htaken, rfl⟩ := Option.map_eq_some_iff.mp htaken
  obtain ⟨-, -, -, -, -, -, hreader⟩ := queue_drops_oldest 1 hs
  obtain ⟨hsamples, hsince, -⟩ := hreader 1 false 3 q₁ htaken
  exact ⟨s, h, hs, hpushed, hever, hreturned, hclosed, ⟨q₀, hstale⟩, ⟨q₁, htaken, hsamples⟩, hsince⟩

end PyNetFT.Bindings
