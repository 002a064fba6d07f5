/-
PyNetFT.Bindings.SampleQueue — the bounded queue between the receive
thread and the Python readers (`bindings/python/sample_queue.cpp`).

Every member function of the source takes the queue's mutex for its whole
length, except that `read_for` gives it up while it waits; so each one is
a pure function here, and `readFor` is split into the predicate it waits
for and what it does once it has woken up. A full queue drops its oldest
sample. `close` starts a new generation and stays closed until `reset`,
which keeps the generation.

The element type is free: `NativeClient` queues samples.
-/
import PyNetFT.Lib.Ledger

namespace PyNetFT.Bindings

open PyNetFT.Lib

inductive ReadStatus where
  | sample | timeout | closed
  deriving DecidableEq

/-- `ReadResult`: the sample is there exactly for `ReadStatus.sample`. -/
inductive ReadResult (α : Type) where
  | sample (value : α)
  | timeout
  | closed
  deriving DecidableEq

def ReadResult.status {α : Type} : ReadResult α → ReadStatus
  | .sample _ => .sample
  | .timeout => .timeout
  | .closed => .closed

/-- `SampleQueue`. The constructor refuses capacity zero. -/
structure SampleQueue (α : Type) where
  capacity : Nat
  samples : List α
  droppedCount : Nat
  closeGeneration : Nat
  isClosed : Bool
  positive : 0 < capacity
  bounded : samples.length ≤ capacity
  deriving DecidableEq

namespace SampleQueue

variable {α : Type}

/-- `SampleQueue::SampleQueue`. -/
def new (capacity : Nat) : Except String (SampleQueue α) :=
  if h : capacity = 0 then .error "sample queue capacity must be greater than zero"
  else
    .ok { capacity := capacity
          samples := []
          droppedCount := 0
          closeGeneration := 0
          isClosed := false
          positive := Nat.pos_of_ne_zero h
          bounded := Nat.zero_le _ }

/-- The first part of `push`: a full queue gives up its oldest sample.
When the allocation of the new entry fails, this is all that happens. -/
def makeRoom (q : SampleQueue α) : SampleQueue α :=
  if q.samples.length = q.capacity then
    { q with
      samples := q.samples.tail
      droppedCount := q.droppedCount + 1
      bounded := by
        rw [List.length_tail]
        exact Nat.le_trans (Nat.sub_le _ _) q.bounded }
  else q

theorem makeRoom_lt (q : SampleQueue α) : q.makeRoom.samples.length < q.makeRoom.capacity := by
  have hpositive := q.positive
  have hbounded := q.bounded
  unfold makeRoom
  split
  · rename_i hfull
    dsimp only
    rw [List.length_tail]
    omega
  · rename_i hroom
    omega

/-- `SampleQueue::push`. It does not look at `closed_`. -/
def push (q : SampleQueue α) (sample : α) : SampleQueue α :=
  { q.makeRoom with
    samples := q.makeRoom.samples ++ [sample]
    bounded := by
      rw [List.length_append]
      exact q.makeRoom_lt }

/-- The predicate `read_for` waits for. -/
def ready (q : SampleQueue α) (generation : Nat) : Bool :=
  q.isClosed || decide (q.closeGeneration ≠ generation) || !q.samples.isEmpty

theorem rest_bounded (q : SampleQueue α) {sample : α} {rest : List α}
    (h : q.samples = sample :: rest) : rest.length ≤ q.capacity := by
  have hbounded := q.bounded
  rw [h, List.length_cons] at hbounded
  omega

/-- The end of `read_for`: its predicate holds, or its time is over
(`expired`). `none` is a reader that goes on waiting. -/
def readFor (q : SampleQueue α) (generation : Nat) (expired : Bool) :
    Option (ReadResult α × SampleQueue α) :=
  if q.ready generation = false then
    if expired then some (.timeout, q) else none
  else if q.isClosed ∨ q.closeGeneration ≠ generation then some (.closed, q)
  else
    match h : q.samples with
    | [] => none
    | sample :: rest =>
        some (.sample sample,
          { q with samples := rest, bounded := q.rest_bounded h })

/-- `SampleQueue::close`. -/
def close (q : SampleQueue α) : SampleQueue α :=
  { q with isClosed := true, closeGeneration := q.closeGeneration + 1 }

/-- `SampleQueue::reset`. -/
def reset (q : SampleQueue α) : SampleQueue α :=
  { q with samples := [], droppedCount := 0, isClosed := false, bounded := Nat.zero_le _ }

/-! ## What the operations do -/

section Operations

variable {q q' : SampleQueue α} {generation : Nat} {expired : Bool} {result : ReadResult α}

@[simp] theorem makeRoom_closeGeneration (q : SampleQueue α) :
    q.makeRoom.closeGeneration = q.closeGeneration := by
  unfold makeRoom
  split <;> rfl

@[simp] theorem makeRoom_isClosed (q : SampleQueue α) : q.makeRoom.isClosed = q.isClosed := by
  unfold makeRoom
  split <;> rfl

@[simp] theorem push_closeGeneration (q : SampleQueue α) (sample : α) :
    (q.push sample).closeGeneration = q.closeGeneration := q.makeRoom_closeGeneration

@[simp] theorem push_isClosed (q : SampleQueue α) (sample : α) :
    (q.push sample).isClosed = q.isClosed := q.makeRoom_isClosed

/-- A reader that comes back has one of three reasons. -/
theorem readFor_cases (h : q.readFor generation expired = some (result, q')) :
    (result = .closed ∧ q' = q ∧ (q.isClosed = true ∨ q.closeGeneration ≠ generation)) ∨
      (result = .timeout ∧ q' = q ∧ q.samples = [] ∧ expired = true ∧ q.isClosed = false ∧
        q.closeGeneration = generation) ∨
      ∃ sample, result = .sample sample ∧ q.samples = sample :: q'.samples ∧
        q.isClosed = false ∧ q.closeGeneration = generation ∧ q'.isClosed = q.isClosed ∧
        q'.closeGeneration = q.closeGeneration ∧ q'.droppedCount = q.droppedCount := by
  unfold readFor at h
  split at h
  · rename_i hready
    simp only [ready, Bool.or_eq_false_iff, decide_eq_false_iff_not, not_not,
      Bool.not_eq_false', List.isEmpty_iff] at hready
    split at h
    · rename_i hexpired
      cases h
      exact .inr (.inl ⟨rfl, rfl, hready.2, hexpired, hready.1.1, hready.1.2⟩)
    · cases h
  · split at h
    · rename_i hclosed
      cases h
      exact .inl ⟨rfl, rfl, hclosed⟩
    · rename_i hopen
      rw [not_or, not_not] at hopen
      split at h
      · cases h
      · rename_i sample rest hsamples
        cases h
        exact .inr (.inr ⟨sample, rfl, hsamples, by simpa using hopen.1, hopen.2, rfl, rfl, rfl⟩)

end Operations

/-! ## The books -/

/-- The queue's part of a ledger. -/
def Books (q : SampleQueue α) (pushed taken : List α) : Prop :=
  Ledger pushed taken q.samples q.droppedCount

section Books

variable {q q' : SampleQueue α} {pushed taken : List α} {sample : α}

theorem Books.makeRoom (h : q.Books pushed taken) : q.makeRoom.Books pushed taken := by
  unfold SampleQueue.makeRoom
  split
  · rename_i hfull
    have hpositive := q.positive
    obtain ⟨oldest, rest, hsamples⟩ := List.exists_cons_of_length_pos (hfull ▸ hpositive)
    unfold Books at h ⊢
    dsimp only
    rw [hsamples] at h ⊢
    exact h.drop
  · exact h

theorem Books.push (h : q.Books pushed taken) (sample : α) :
    (q.push sample).Books (pushed ++ [sample]) taken :=
  Ledger.push h.makeRoom sample

theorem Books.take (h : q.Books pushed taken) (hsamples : q.samples = sample :: q'.samples)
    (hdropped : q'.droppedCount = q.droppedCount) : q'.Books pushed (taken ++ [sample]) := by
  unfold Books at h ⊢
  rw [hsamples] at h
  rw [hdropped]
  exact h.take

end Books

end SampleQueue

end PyNetFT.Bindings
