/-
PyNetFT.Core.SequenceRefinement — the RDT tracker against unbounded
numbers.

The sensor numbers its records with a counter that never wraps; the wire
carries it modulo `2^32` and the tracker keeps 32 bits. `UnboundedTracker`
is what the tracker is for: it remembers the largest number seen and
compares with that. §1 is the modular arithmetic on both sides of the
half range, §2 the refinement of one observation, §3 the books of a run:
what the gaps and the accepted records add up to. §4 carries the books
to `lost_count` through `handle_record`.

The window is `max - 2^31 ≤ n < max + 2^31`, closed below and open
above: a number exactly half the range back is still told apart, one
exactly half the range ahead is taken for late.
-/
import PyNetFT.Core.Impl
import PyNetFT.Core.SequenceTheorems
import PyNetFT.Lib.Mealy

namespace PyNetFT.Core

open PyNetFT.Lib

/-! ## §1 The half range -/

/-- A number the tracker can place: from half the range back, inclusive,
to half the range ahead, exclusive. -/
def Placeable (m n : Nat) : Prop := m ≤ n + 2 ^ 31 ∧ n < m + 2 ^ 31

instance (m n : Nat) : Decidable (Placeable m n) := inferInstanceAs (Decidable (_ ∧ _))

theorem toNat_sub_of_le {m n : Nat} (hle : m ≤ n) (h : n < m + 2 ^ 31) :
    (UInt32.ofNat n - UInt32.ofNat m).toNat = n - m := by
  rw [toNat_sub_ofNat]
  omega

theorem toNat_sub_of_gt {m n : Nat} (hlt : n < m) (h : m ≤ n + 2 ^ 31) :
    (UInt32.ofNat n - UInt32.ofNat m).toNat = 2 ^ 32 - (m - n) := by
  rw [toNat_sub_ofNat]
  omega

/-! ## §2 The unbounded tracker -/

/-- An observation with the gap as a natural number. -/
structure UnboundedObservation where
  kind : SequenceKind
  gap : Nat := 0
  deriving DecidableEq

/-- The tracker without wrapping: the largest number seen so far. -/
abbrev UnboundedTracker := Option Nat

def UnboundedTracker.observe : UnboundedTracker → Nat → UnboundedObservation × UnboundedTracker
  | none, n => (⟨.first, 0⟩, some n)
  | some m, n =>
      if n = m then (⟨.duplicate, 0⟩, some m)
      else if n < m then (⟨.outOfOrder, 0⟩, some m)
      else if n = m + 1 then (⟨.contiguous, 0⟩, some n)
      else (⟨.gap, n - m - 1⟩, some n)

/-- The 32-bit tracker holds the same number, cut to 32 bits. -/
def RdtSequenceTracker.Refines (t : RdtSequenceTracker) : UnboundedTracker → Prop
  | none => t.hasLast = false
  | some m => t = ⟨true, UInt32.ofNat m⟩

/-- An observation of the code with its gap read as a natural number. -/
def SequenceObservation.unbounded (o : SequenceObservation) : UnboundedObservation :=
  ⟨o.kind, o.gap.toNat⟩

/-- One observation inside the window answers as the unbounded tracker
does and keeps refining it. -/
theorem RdtSequenceTracker.Refines.observe {t : RdtSequenceTracker} {u : UnboundedTracker}
    (h : t.Refines u) {n : Nat} (hn : ∀ m ∈ u, Placeable m n) :
    (t.observe (UInt32.ofNat n)).1.unbounded = (UnboundedTracker.observe u n).1 ∧
      (t.observe (UInt32.ofNat n)).2.Refines (UnboundedTracker.observe u n).2 := by
  cases u with
  | none =>
    rw [RdtSequenceTracker.observe_first h]
    exact ⟨rfl, rfl⟩
  | some m =>
    obtain ⟨hlow, hhigh⟩ := hn m rfl
    have ht : t = ⟨true, UInt32.ofNat m⟩ := h
    subst ht
    have hhalf : (0x80000000 : UInt32).toNat = 2 ^ 31 := rfl
    simp only [RdtSequenceTracker.observe, UnboundedTracker.observe, Bool.true_eq_false, if_false,
      ← UInt32.toNat_inj, UInt32.lt_iff_toNat_lt, hhalf, UInt32.toNat_zero, UInt32.toNat_one]
    rcases Nat.lt_or_ge n m with hlt | hge
    · rw [toNat_sub_of_gt hlt hlow]
      have hzero : ¬ 2 ^ 32 - (m - n) = 0 := by omega
      have hahead : ¬ 2 ^ 32 - (m - n) < 2 ^ 31 := by omega
      rw [if_neg hzero, if_neg hahead, if_neg hlt.ne, if_pos hlt]
      exact ⟨rfl, rfl⟩
    · rw [toNat_sub_of_le hge hhigh]
      by_cases heq : n = m
      · rw [if_pos (Nat.sub_eq_zero_of_le heq.le), if_pos heq]
        exact ⟨rfl, rfl⟩
      have hzero : ¬ n - m = 0 := by omega
      have hahead : n - m < 2 ^ 31 := by omega
      rw [if_neg hzero, if_pos hahead, if_neg heq, if_neg hge.not_gt]
      by_cases hone : n = m + 1
      · have hdelta : n - m = 1 := by omega
        rw [if_pos hdelta, if_pos hone]
        exact ⟨rfl, rfl⟩
      · have hdelta : ¬ n - m = 1 := by omega
        rw [if_neg hdelta, if_neg hone]
        refine ⟨?_, rfl⟩
        -- the gap is one less than the distance, without wrapping below zero
        have hdist := toNat_sub_of_le hge hhigh
        have hgap : (UInt32.ofNat n - UInt32.ofNat m - 1).toNat = n - m - 1 := by
          rw [UInt32.toNat_sub, hdist, UInt32.toNat_one]
          omega
        simp only [SequenceObservation.unbounded, hgap]

/-- The four answers against a number seen before. -/
theorem UnboundedTracker.observe_cases (m n : Nat) :
    (n = m ∧ UnboundedTracker.observe (some m) n = (⟨.duplicate, 0⟩, some m)) ∨
      (n < m ∧ UnboundedTracker.observe (some m) n = (⟨.outOfOrder, 0⟩, some m)) ∨
      (n = m + 1 ∧ UnboundedTracker.observe (some m) n = (⟨.contiguous, 0⟩, some n)) ∨
      (m + 1 < n ∧ UnboundedTracker.observe (some m) n = (⟨.gap, n - m - 1⟩, some n)) := by
  simp only [UnboundedTracker.observe]
  split
  · exact Or.inl ⟨‹_›, rfl⟩
  · split
    · exact Or.inr (Or.inl ⟨‹_›, rfl⟩)
    · split
      · exact Or.inr (Or.inr (Or.inl ⟨‹_›, rfl⟩))
      · exact Or.inr (Or.inr (Or.inr ⟨by omega, rfl⟩))

/-- It keeps the larger of the two numbers. -/
theorem UnboundedTracker.observe_last (m n : Nat) :
    (UnboundedTracker.observe (some m) n).2 = some (max m n) := by
  rcases UnboundedTracker.observe_cases m n with ⟨h, heq⟩ | ⟨h, heq⟩ | ⟨h, heq⟩ | ⟨h, heq⟩
  all_goals
    rw [heq, Option.some.injEq]
    omega

/-! ## §3 The books of a run -/

/-- A number observed as the wire carries it. -/
def RdtSequenceTracker.observeNumber (t : RdtSequenceTracker) (n : Nat) :
    SequenceObservation × RdtSequenceTracker :=
  t.observe (UInt32.ofNat n)

/-- What an observation adds to `lost_count`. -/
def SequenceObservation.lost (o : SequenceObservation) : Nat :=
  if o.kind = .gap then o.gap.toNat else 0

/-- The sum of the gaps reported. -/
def reportedGaps (os : List SequenceObservation) : Nat := (os.map SequenceObservation.lost).sum

/-- The records accepted: first, contiguous and gap. -/
def acceptedRecords (os : List SequenceObservation) : Nat := os.countP (·.kind.fresh)

/-- Every number is placeable against the largest one before it. -/
def PlaceableRun (numbers : List Nat) : Prop :=
  ∀ before n after, numbers = before ++ n :: after → ∀ m ∈ before.max?, Placeable m n

/-- The same, position by position; this form is evaluated. -/
theorem placeableRun_iff (numbers : List Nat) :
    PlaceableRun numbers ↔ ∀ k < numbers.length,
      ∀ n ∈ numbers[k]?, ∀ m ∈ (numbers.take k).max?, Placeable m n := by
  constructor
  · intro h k hk n hn m hm
    obtain ⟨_, rfl⟩ := List.getElem?_eq_some_iff.mp hn
    refine h (numbers.take k) _ (numbers.drop (k + 1)) ?_ m hm
    rw [List.getElem_cons_drop, List.take_append_drop]
  · rintro h before n after rfl m hm
    exact h before.length (by simp) n (by simp) m (by simpa using hm)

instance (numbers : List Nat) : Decidable (PlaceableRun numbers) :=
  decidable_of_iff _ (placeableRun_iff numbers).symm

theorem max?_concat (numbers : List Nat) (n : Nat) :
    (numbers ++ [n]).max? = some (numbers.max?.elim n (max · n)) := by
  cases numbers with
  | nil => rfl
  | cons m rest =>
    rw [List.cons_append, List.max?_cons', List.max?_cons', List.foldl_append]
    rfl

theorem head_le_max {numbers : List Nat} {f m : Nat} (hf : f ∈ numbers.head?)
    (hm : m ∈ numbers.max?) : f ≤ m :=
  (List.max?_eq_some_iff.mp hm).2 f (List.mem_of_head? hf)

/-- One observation closes its own books: the gap it reports and the
record itself are the distance the maximum moved. -/
theorem SequenceObservation.lost_add_accepted {o : SequenceObservation} {m n : Nat}
    (h : o.unbounded = (UnboundedTracker.observe (some m) n).1) :
    m + o.lost + acceptedRecords [o] = max m n := by
  obtain ⟨kind, gap⟩ := o
  rcases UnboundedTracker.observe_cases m n with ⟨hn, heq⟩ | ⟨hn, heq⟩ | ⟨hn, heq⟩ | ⟨hn, heq⟩
  all_goals
    rw [heq, SequenceObservation.unbounded, UnboundedObservation.mk.injEq] at h
    obtain ⟨rfl, hgap⟩ := h
    simp only [SequenceObservation.lost, acceptedRecords, List.countP_singleton,
      SequenceKind.fresh, reduceCtorEq, Bool.false_eq_true, if_true, if_false, hgap]
    omega

/-- The books after a list of numbers: the tracker holds the largest,
and gaps and accepted records cover everything from the first on. -/
structure RdtBooks (numbers : List Nat) (os : List SequenceObservation)
    (t : RdtSequenceTracker) : Prop where
  refines : t.Refines numbers.max?
  covered : ∀ f ∈ numbers.head?, ∀ m ∈ numbers.max?,
    f + reportedGaps os + acceptedRecords os = m + 1
  unheard : numbers = [] → os = []

theorem reportedGaps_concat (os : List SequenceObservation) (o : SequenceObservation) :
    reportedGaps (os ++ [o]) = reportedGaps os + o.lost := by
  simp [reportedGaps]

theorem acceptedRecords_concat (os : List SequenceObservation) (o : SequenceObservation) :
    acceptedRecords (os ++ [o]) = acceptedRecords os + acceptedRecords [o] :=
  List.countP_append

theorem RdtBooks.observe {numbers : List Nat} {os : List SequenceObservation}
    {t : RdtSequenceTracker} (h : RdtBooks numbers os t) {n : Nat}
    (hn : ∀ m ∈ numbers.max?, Placeable m n) :
    RdtBooks (numbers ++ [n]) (os ++ [(t.observeNumber n).1]) (t.observeNumber n).2 := by
  obtain ⟨hresult, hrefines⟩ := h.refines.observe hn
  cases hm : numbers.max? with
  | none =>
    obtain rfl := List.max?_eq_none_iff.mp hm
    have hfirst : t.observeNumber n = (⟨.first, 0⟩, ⟨true, UInt32.ofNat n⟩) :=
      RdtSequenceTracker.observe_first h.refines _
    rw [h.unheard rfl, hfirst]
    refine ⟨rfl, ?_, by simp⟩
    rintro f ⟨⟩ m ⟨⟩
    simp [reportedGaps, acceptedRecords, SequenceObservation.lost, SequenceKind.fresh]
  | some m =>
    rw [hm] at hresult hrefines
    rw [UnboundedTracker.observe_last] at hrefines
    have hmax : (numbers ++ [n]).max? = some (max m n) := by rw [max?_concat, hm]; rfl
    refine ⟨hmax ▸ hrefines, ?_, by simp⟩
    intro f hf m' hm'
    obtain rfl : max m n = m' := by simpa [hmax] using hm'
    have hhead : f ∈ numbers.head? := by
      cases numbers with
      | nil => cases hm
      | cons g rest => exact hf
    have hbooks := h.covered f hhead m hm
    have hone : m + (t.observeNumber n).1.lost + acceptedRecords [(t.observeNumber n).1]
        = max m n := SequenceObservation.lost_add_accepted hresult
    rw [reportedGaps_concat, acceptedRecords_concat]
    omega

/-- The books of every prefix of a placeable run. -/
theorem rdtBooks_of_placeableRun (t : RdtSequenceTracker) {numbers : List Nat}
    (h : PlaceableRun numbers) :
    ∀ before after, numbers = before ++ after →
      RdtBooks before (Mealy.outputs RdtSequenceTracker.observeNumber t.reset before)
        (Mealy.final RdtSequenceTracker.observeNumber t.reset before) := by
  refine Mealy.final_invariant _ _ ⟨rfl, by simp, fun _ => rfl⟩ ?_
  intro before n after hsplit hbooks
  exact hbooks.observe (h before n after hsplit)

/-! ## §4 `lost_count` -/

/-- A record on its way into `handle_record`, with what the callback
will answer if it is called. -/
structure RecordCall where
  record : RawRecord
  receivedAt : TimePoint
  callback : Except String Unit := .ok ()

/-- `handle_record` as a machine over the records of a session: its
result and the sample it handed over. -/
def Impl.receive (P : Platform) (config : Config) (s : Impl) (r : RecordCall) :
    (Except String (Option SessionResult) × Option Sample) × Impl :=
  let handled := s.handleRecord P config r.callback r.record r.receivedAt
  ((handled.result, handled.handed), handled.impl)

/-- After the locked section `handle_record` writes the books of the
callback at most. -/
theorem handleRecord_impl (P : Platform) (config : Config) (callback : Except String Unit)
    (record : RawRecord) (receivedAt : TimePoint) (s : Impl) :
    let classified := (s.classifyRecord config record receivedAt).1
    let after := (s.handleRecord P config callback record receivedAt).impl
    after = classified ∨ (∃ message, after = classified.recordCallbackError message) ∨
      ∃ sample, after = classified.recordDelivered sample := by
  simp only [Impl.handleRecord]
  split
  · rename_i heq
    simp [heq]
  · rename_i heq
    simp only [heq]
    split
    · exact Or.inl rfl
    · split
      · exact Or.inl rfl
      · split
        · exact Or.inr (Or.inl ⟨_, rfl⟩)
        · exact Or.inr (Or.inr ⟨_, rfl⟩)

theorem classifyRecord_lostCount (config : Config) {s : Impl}
    {configuration : SensorConfiguration}
    (h : s.health.sensorConfiguration = some configuration) (record : RawRecord)
    (receivedAt : TimePoint) :
    (s.classifyRecord config record receivedAt).1.health.lostCount
      = s.health.lostCount + (s.rdtSequence.observe record.rdtSequence).1.lost := by
  simp only [Impl.classifyRecord, h, SequenceObservation.lost]
  split <;> simp only [HealthSnapshot.countRecord] <;> split <;> rfl

/-- With a configuration installed, what one record does to the RDT
tracker and to `lost_count` is the tracker's answer alone: neither the
rate limit nor the callback touches them. -/
theorem receive_rdt (P : Platform) (config : Config) {s : Impl}
    {configuration : SensorConfiguration}
    (h : s.health.sensorConfiguration = some configuration) (r : RecordCall) :
    let s' := (s.receive P config r).2
    s'.rdtSequence = (s.rdtSequence.observe r.record.rdtSequence).2 ∧
      s'.health.sensorConfiguration = some configuration ∧
      s'.health.lostCount
        = s.health.lostCount + (s.rdtSequence.observe r.record.rdtSequence).1.lost := by
  obtain ⟨c, decision, hclass, hrdt, -, hconf, -⟩ :=
    classifyRecord_ok config h r.record r.receivedAt
  have hlost := classifyRecord_lostCount config h r.record r.receivedAt
  have himpl := handleRecord_impl P config r.callback r.record r.receivedAt s
  rw [hclass] at hlost himpl
  dsimp only [Impl.receive] at himpl ⊢
  rcases himpl with heq | ⟨message, heq⟩ | ⟨sample, heq⟩
  all_goals
    rw [heq]
    exact ⟨hrdt, hconf, hlost⟩

/-- Over a session `lost_count` grows by the gaps the tracker reports. -/
theorem receive_lostCount (P : Platform) (config : Config) {s : Impl}
    {configuration : SensorConfiguration}
    (h : s.health.sensorConfiguration = some configuration) (calls : List RecordCall) :
    (Mealy.final (Impl.receive P config) s calls).health.lostCount
      = s.health.lostCount + reportedGaps (Mealy.outputs RdtSequenceTracker.observe
          s.rdtSequence (calls.map (·.record.rdtSequence))) := by
  induction calls generalizing s with
  | nil => rfl
  | cons r rest ih =>
    obtain ⟨hrdt, hconf, hlost⟩ := receive_rdt P config h r
    have hrest := ih hconf
    simp only [hrdt, hlost] at hrest
    simp only [Mealy.final, List.map_cons, Mealy.outputs, reportedGaps, List.sum_cons]
    rw [hrest, reportedGaps]
    omega

theorem outputs_observe_ofNat (t : RdtSequenceTracker) (numbers : List Nat) :
    Mealy.outputs RdtSequenceTracker.observe t (numbers.map UInt32.ofNat)
      = Mealy.outputs RdtSequenceTracker.observeNumber t numbers := by
  induction numbers generalizing t with
  | nil => rfl
  | cons n rest ih => exact congrArg (_ :: ·) (ih _)

/-- **The RDT tracker refines the unbounded one.** For every run of
numbers, each within the window of the largest before it: every answer
is the one the true numbers call for, the tracker holds the largest
number modulo `2^32`, the gaps reported and the records accepted cover
everything from the first number to the largest, and `lost_count` grows
over a session of such records by the span less the accepted ones. -/
theorem rdt_refines_unbounded (t : RdtSequenceTracker) (numbers : List Nat)
    (h : PlaceableRun numbers) :
    (∀ before n after, numbers = before ++ n :: after →
      let result :=
        ((Mealy.final RdtSequenceTracker.observeNumber t.reset before).observeNumber n).1
      (before = [] → result = ⟨.first, 0⟩) ∧
        ∀ m ∈ before.max?, (result.kind = .duplicate ↔ n = m) ∧
          (result.kind = .outOfOrder ↔ n < m) ∧ (result.kind = .contiguous ↔ n = m + 1) ∧
          (m + 1 < n → result.kind = .gap ∧ result.gap.toNat = n - m - 1)) ∧
      (∀ before after, numbers = before ++ after → ∀ f ∈ before.head?, ∀ m ∈ before.max?,
        let observed := Mealy.outputs RdtSequenceTracker.observeNumber t.reset before
        (Mealy.final RdtSequenceTracker.observeNumber t.reset before).previous = UInt32.ofNat m ∧
          f ≤ m ∧ reportedGaps observed + acceptedRecords observed = m - f + 1) ∧
      ∀ (P : Platform) (config : Config) (s : Impl) (calls : List RecordCall),
        s.health.sensorConfiguration ≠ none → s.rdtSequence = t.reset →
        calls.map (·.record.rdtSequence) = numbers.map UInt32.ofNat →
        ∀ f ∈ numbers.head?, ∀ m ∈ numbers.max?,
          (Mealy.final (Impl.receive P config) s calls).health.lostCount
            = s.health.lostCount + ((m - f + 1) - acceptedRecords
                (Mealy.outputs RdtSequenceTracker.observeNumber t.reset numbers)) := by
  have hbooks := rdtBooks_of_placeableRun t h
  refine ⟨?_, ?_, ?_⟩
  · intro before n after hsplit
    have hb := hbooks before (n :: after) hsplit
    obtain ⟨hresult, -⟩ := hb.refines.observe (h before n after hsplit)
    refine ⟨?_, ?_⟩
    · rintro rfl
      exact congrArg Prod.fst (RdtSequenceTracker.observe_first rfl _)
    · intro m hm
      rw [show before.max? = some m from hm] at hresult
      simp only [RdtSequenceTracker.observeNumber]
      generalize hobs : (RdtSequenceTracker.observe _ (UInt32.ofNat n)).1 = result at hresult ⊢
      obtain ⟨kind, gap⟩ := result
      rcases UnboundedTracker.observe_cases m n with hc | hc | hc | hc
      all_goals
        obtain ⟨hn, heq⟩ := hc
        rw [heq, SequenceObservation.unbounded, UnboundedObservation.mk.injEq] at hresult
        obtain ⟨rfl, hgap⟩ := hresult
        simp only [reduceCtorEq, true_iff, false_iff, implies_true, and_true, hgap]
        omega
  · intro before after hsplit f hf m hm
    have hb := hbooks before after hsplit
    have hcovered := hb.covered f hf m hm
    have hrefines := hb.refines
    rw [show before.max? = some m from hm] at hrefines
    have hle := head_le_max hf hm
    refine ⟨congrArg RdtSequenceTracker.previous hrefines, hle, ?_⟩
    omega
  · intro P config s calls hconf hrdt hwire f hf m hm
    obtain ⟨configuration, hconf⟩ := Option.ne_none_iff_exists'.mp hconf
    have hcovered := (hbooks numbers [] (List.append_nil _).symm).covered f hf m hm
    have hle := head_le_max hf hm
    rw [receive_lostCount P config hconf, hwire, hrdt, outputs_observe_ofNat]
    omega

/-- Two wraps with losses, a duplicate and a late record exactly half
the range back. -/
theorem rdt_refines_two_wraps :
    let numbers := [2 ^ 32 - 2, 2 ^ 32 + 1, 2 ^ 32 + 1, 2 ^ 32, 2 ^ 32 + 2 ^ 31,
      2 ^ 32 + 2 ^ 31 + 1, 2 ^ 32 + 1, 2 ^ 33 - 1, 2 ^ 33]
    let observed := Mealy.outputs RdtSequenceTracker.observeNumber
      (RdtSequenceTracker.reset {}) numbers
    PlaceableRun numbers ∧
      reportedGaps observed + acceptedRecords observed = 2 ^ 33 - (2 ^ 32 - 2) + 1 := by
  intro numbers observed
  have hrun : PlaceableRun numbers := by decide
  refine ⟨hrun, ?_⟩
  have hbooks := (rdt_refines_unbounded {} numbers hrun).2.1 numbers [] rfl (2 ^ 32 - 2) rfl
    (2 ^ 33) (by decide)
  exact hbooks.2.2

end PyNetFT.Core
