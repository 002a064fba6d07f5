/-
PyNetFT.Core.Accounting — the counters of `health_` account for every
record.

The history keeps every record that was counted with what was seen of it
(its sequence kinds and severity) and its fate: delivered, rate-limited, a
callback error, or suppressed. A record that was let through is pending
between the two locked sections of `handle_record`, while the user
callback runs. `AccountsWf` says that the counters are counts over this
history; the bounds on `received_count` are then bounds between counts
over one list.
-/
import PyNetFT.Core.Counters
import PyNetFT.Core.Validated
import PyNetFT.Lib.Counting

namespace PyNetFT.Core

open PyNetFT.Lib

/-! ## What a record was and what became of it -/

inductive Fate where
  | delivered | rateLimited | callbackError | suppressed
  deriving DecidableEq

/-- A record as the locked section of `handle_record` sees it. -/
structure Seen where
  record : RawRecord
  rdt : SequenceKind
  ft : FtSequenceKind
  severity : StatusSeverity
  deriving DecidableEq

def Impl.seen (s : Impl) (record : RawRecord) : Seen :=
  ⟨record, (s.rdtSequence.observe record.rdtSequence).1.kind,
    (s.ftSequence.observe record.ftSequence).1, classifyStatus record.status⟩

def Seen.eligible (config : Config) (x : Seen) : Bool :=
  PyNetFT.Core.eligible config x.rdt x.ft x.severity

/-- The reasons to suppress a record. -/
def Seen.duplicate (x : Seen) : Bool := x.rdt == .duplicate
def Seen.outOfOrder (x : Seen) : Bool := x.rdt == .outOfOrder
def Seen.ftStall (x : Seen) : Bool := x.ft == .stall
def Seen.ftBackward (x : Seen) : Bool := x.ft == .backward
def Seen.deviceError (config : Config) (x : Seen) : Bool :=
  !config.deliverSamplesWithErrorStatus && x.severity == .error

def suppressionReasons (config : Config) : List (Seen → Bool) :=
  [Seen.duplicate, Seen.outOfOrder, Seen.ftStall, Seen.ftBackward, Seen.deviceError config]

/-- The counters that account for records. -/
structure RecordCounts where
  received : Nat
  delivered : Nat
  rateLimited : Nat
  callbackError : Nat
  duplicate : Nat
  outOfOrder : Nat
  ftStall : Nat
  ftBackward : Nat
  deviceError : Nat
  deriving DecidableEq

def HealthSnapshot.recordCounts (h : HealthSnapshot) : RecordCounts :=
  ⟨h.receivedCount, h.deliveredCount, h.rateLimitedCount, h.callbackErrorCount, h.duplicateCount,
    h.outOfOrderCount, h.ftStallCount, h.ftBackwardCount, h.deviceErrorCount⟩

/-- Every counted record, the settled ones with their fates, and the one
between the two sections. -/
structure Accounts where
  records : List RawRecord := []
  settled : List (Seen × Fate) := []
  pending : Option Seen := none
  deriving DecidableEq

def Accounts.seen (a : Accounts) : List Seen := a.settled.map Prod.fst ++ a.pending.toList

def Accounts.count (a : Accounts) (fate : Fate) : Nat := a.settled.countP (·.2 == fate)

def Accounts.counts (a : Accounts) : RecordCounts where
  received := a.seen.length
  delivered := a.count .delivered
  rateLimited := a.count .rateLimited
  callbackError := a.count .callbackError
  duplicate := a.seen.countP Seen.duplicate
  outOfOrder := a.seen.countP Seen.outOfOrder
  ftStall := a.seen.countP Seen.ftStall
  ftBackward := a.seen.countP Seen.ftBackward
  deviceError := a.seen.countP (·.severity == .error)

/-- A record is settled in the locked section, unless it is let through. -/
def Accounts.arrive (config : Config) (a : Accounts) (x : Seen) (limited : Bool) : Accounts :=
  let records := a.records ++ [x.record]
  if x.eligible config = false then { a with records, settled := a.settled ++ [(x, .suppressed)] }
  else if limited then { a with records, settled := a.settled ++ [(x, .rateLimited)] }
  else { a with records, pending := some x }

def Accounts.settle (a : Accounts) (fate : Fate) : Accounts :=
  match a.pending with
  | none => a
  | some x => { a with settled := a.settled ++ [(x, fate)], pending := none }

def Accounts.atWorker (config : Config) (a : Accounts) (s : Shared) : WorkerPc → Accounts
  | .classify _ record receivedAt =>
      if s.health.sensorConfiguration.isSome then
        a.arrive config (s.toImpl.seen record) (rateLimited config s.lastDeliveryAt receivedAt)
      else a
  | .callbackFailed _ _ _ => a.settle .callbackError
  | .delivered _ _ _ => a.settle .delivered
  | _ => a

def Accounts.record (config : Config) (a : Accounts) (s : Sys) (l : Label) (_ : Sys) : Accounts :=
  match l with
  | .worker w _ => ((s.workers w).map fun t => a.atWorker config s.shared t.pc).getD a
  | _ => a

/-- The client with that history. -/
def accountLts (P : Platform) (config : Config) : Lts (Sys × Accounts) Label :=
  (clientLts P config).recorded {} (Accounts.record config)

/-! ## Counts over the history -/

section Accounts

variable {config : Config} {a : Accounts}

/-- The fates say what the flags of the records say. -/
structure Accounts.Consistent (config : Config) (a : Accounts) : Prop where
  records : a.records = a.seen.map Seen.record
  settled : ∀ e ∈ a.settled, e.2 = .suppressed ↔ e.1.eligible config = false
  pending : ∀ x, a.pending = some x → x.eligible config = true

theorem Accounts.Consistent.empty : ({} : Accounts).Consistent config :=
  ⟨rfl, fun _ h => (by cases h), fun _ h => (by cases h)⟩

theorem Accounts.Consistent.arrive (h : a.Consistent config) (hidle : a.pending = none) (x : Seen)
    (limited : Bool) : (a.arrive config x limited).Consistent config := by
  have hrecords : ∀ b : Accounts, b.records = a.records ++ [x.record] → b.seen = a.seen ++ [x] →
      b.records = b.seen.map Seen.record := by
    intro b hb hseen
    rw [hb, hseen, h.records, List.map_append]
    rfl
  have hseen : a.seen = a.settled.map Prod.fst := by simp [Accounts.seen, hidle]
  unfold Accounts.arrive
  dsimp only
  split
  · rename_i heligible
    refine ⟨hrecords _ rfl (by simp [Accounts.seen, hidle]), ?_, ?_⟩
    · intro e he
      rcases List.mem_append.mp he with hold | hnew
      · exact h.settled e hold
      · rw [List.mem_singleton.mp hnew]
        exact iff_of_true rfl heligible
    · intro y hy
      rw [show a.pending = some y from hy] at hidle
      cases hidle
  split
  · rename_i heligible _
    refine ⟨hrecords _ rfl (by simp [Accounts.seen, hidle]), ?_, ?_⟩
    · intro e he
      rcases List.mem_append.mp he with hold | hnew
      · exact h.settled e hold
      · rw [List.mem_singleton.mp hnew]
        exact iff_of_false (fun hfate => (by cases hfate)) heligible
    · intro y hy
      rw [show a.pending = some y from hy] at hidle
      cases hidle
  · rename_i heligible _
    refine ⟨hrecords _ rfl (by simp [Accounts.seen, hidle]), h.settled, ?_⟩
    intro y hy
    cases hy
    simpa using heligible

theorem Accounts.Consistent.settle (h : a.Consistent config) {fate : Fate}
    (hfate : fate ≠ .suppressed) : (a.settle fate).Consistent config := by
  unfold Accounts.settle
  split
  · exact h
  · rename_i x hx
    refine ⟨?_, ?_, fun _ hy => by cases hy⟩
    · rw [show ({ a with settled := a.settled ++ [(x, fate)], pending := none } : Accounts).records
        = a.records from rfl, h.records]
      simp [Accounts.seen, hx]
    · intro e he
      rcases List.mem_append.mp he with hold | hnew
      · exact h.settled e hold
      · rw [List.mem_singleton.mp hnew]
        exact iff_of_false hfate (by simp [h.pending x hx])

theorem Accounts.length_settled (a : Accounts) : a.settled.length =
    a.count .delivered + a.count .rateLimited + a.count .callbackError + a.count .suppressed := by
  unfold Accounts.count
  induction a.settled with
  | nil => rfl
  | cons e settled ih =>
    obtain ⟨x, fate⟩ := e
    simp only [List.length_cons, List.countP_cons, ih]
    cases fate <;> simp <;> omega

/-- A record is kept from delivery exactly if there is a reason. -/
theorem Seen.eligible_eq_false_iff (x : Seen) :
    x.eligible config = false ↔ ∃ p ∈ suppressionReasons config, p x = true := by
  obtain ⟨record, rdt, ft, severity⟩ := x
  simp only [suppressionReasons, List.mem_cons, List.not_mem_nil, or_false, exists_eq_or_imp,
    exists_eq_left, Seen.eligible, PyNetFT.Core.eligible, Bool.and_eq_false_iff,
    Seen.duplicate, Seen.outOfOrder, Seen.ftStall, Seen.ftBackward, Seen.deviceError]
  have hrdt : rdt.fresh = false ↔ (rdt == .duplicate) = true ∨ (rdt == .outOfOrder) = true := by
    cases rdt <;> decide
  have hft : (!ft.discontinuity) = false ↔ (ft == .stall) = true ∨ (ft == .backward) = true := by
    cases ft <;> decide
  have hstatus : (decide (severity ≠ .error) || config.deliverSamplesWithErrorStatus) = false ↔
      (!config.deliverSamplesWithErrorStatus && severity == .error) = true := by
    cases config.deliverSamplesWithErrorStatus <;> cases severity <;> decide
  rw [hrdt, hft, hstatus]
  simp only [or_assoc]
  -- the list has the error status last
  exact or_congr_right (or_congr_right (or_comm.trans or_assoc))

/-- Each reason is counted over the settled records alone. -/
theorem Accounts.Consistent.countP_seen (h : a.Consistent config) {p : Seen → Bool}
    (hp : p ∈ suppressionReasons config) :
    a.seen.countP p = a.settled.countP fun e => p e.1 := by
  rw [Accounts.seen, List.countP_append, List.countP_map]
  cases hpending : a.pending with
  | none => rfl
  | some x =>
    have hnot : p x = false := by
      by_contra hpx
      have hkept := (x.eligible_eq_false_iff).mpr ⟨p, hp, by simpa using hpx⟩
      rw [h.pending x hpending] at hkept
      cases hkept
    simp [hnot, Function.comp_def]

theorem Accounts.Consistent.suppressed_of_reason (h : a.Consistent config) {p : Seen → Bool}
    (hp : p ∈ suppressionReasons config) :
    ∀ e ∈ a.settled, p e.1 = true → (e.2 == .suppressed) = true :=
  fun e he hpe => beq_iff_eq.mpr ((h.settled e he).mpr (e.1.eligible_eq_false_iff.mpr ⟨p, hp, hpe⟩))

theorem Accounts.Consistent.reason_le (h : a.Consistent config) {p : Seen → Bool}
    (hp : p ∈ suppressionReasons config) : a.seen.countP p ≤ a.count .suppressed := by
  rw [h.countP_seen hp]
  exact List.countP_mono_left (h.suppressed_of_reason hp)

/-- Two reasons that exclude each other. -/
theorem Accounts.Consistent.reasons_le (h : a.Consistent config) {p q : Seen → Bool}
    (hp : p ∈ suppressionReasons config) (hq : q ∈ suppressionReasons config)
    (hdisjoint : ∀ x, p x = true → q x = false) :
    a.seen.countP p + a.seen.countP q ≤ a.count .suppressed := by
  rw [h.countP_seen hp, h.countP_seen hq]
  exact countP_add_le (h.suppressed_of_reason hp) (h.suppressed_of_reason hq)
    fun e _ => hdisjoint e.1

/-- All reasons together explain every suppressed record. -/
theorem Accounts.Consistent.suppressed_le (h : a.Consistent config) :
    a.count .suppressed ≤ ((suppressionReasons config).map fun p => a.seen.countP p).sum := by
  have hreasons : ∀ e ∈ a.settled, (e.2 == .suppressed) = true →
      ∃ q ∈ (suppressionReasons config).map fun p (e : Seen × Fate) => p e.1, q e = true := by
    intro e he hsuppressed
    have heligible := (h.settled e he).mp (beq_iff_eq.mp hsuppressed)
    obtain ⟨p, hp, hpe⟩ := e.1.eligible_eq_false_iff.mp heligible
    exact ⟨fun e => p e.1, List.mem_map.mpr ⟨p, hp, rfl⟩, hpe⟩
  have hsum := countP_le_sum hreasons
  refine hsum.trans (le_of_eq ?_)
  rw [List.map_map]
  congr 1
  exact List.map_congr_left fun p hp => (h.countP_seen hp).symm

/-- The records that count against delivery because of their status. -/
def RecordCounts.statusSuppressed (config : Config) (c : RecordCounts) : Nat :=
  if config.deliverSamplesWithErrorStatus then 0 else c.deviceError

/-- The two-sided bound, with this many records in progress. -/
structure RecordCounts.Accounted (config : Config) (c : RecordCounts) (inProgress : Nat) :
    Prop where
  lower : c.delivered + c.rateLimited + c.callbackError + inProgress +
    max (max (c.duplicate + c.outOfOrder) (c.ftStall + c.ftBackward))
      (c.statusSuppressed config) ≤ c.received
  upper : c.received ≤ c.delivered + c.rateLimited + c.callbackError + inProgress +
    c.duplicate + c.outOfOrder + c.ftStall + c.ftBackward + c.statusSuppressed config

theorem Accounts.statusSuppressed (config : Config) (a : Accounts) :
    a.counts.statusSuppressed config = a.seen.countP (Seen.deviceError config) := by
  unfold RecordCounts.statusSuppressed Seen.deviceError
  cases config.deliverSamplesWithErrorStatus <;> simp [Accounts.counts]

theorem Accounts.Consistent.accounted (h : a.Consistent config) :
    a.counts.Accounted config a.pending.toList.length := by
  have hlength : a.counts.received = a.settled.length + a.pending.toList.length := by
    simp [Accounts.counts, Accounts.seen]
  rw [a.length_settled] at hlength
  have hrdt := h.reasons_le (p := Seen.duplicate) (q := Seen.outOfOrder)
    (by simp [suppressionReasons]) (by simp [suppressionReasons])
    fun x hx => by rw [Seen.outOfOrder, beq_iff_eq.mp hx]; rfl
  have hft := h.reasons_le (p := Seen.ftStall) (q := Seen.ftBackward)
    (by simp [suppressionReasons]) (by simp [suppressionReasons])
    fun x hx => by rw [Seen.ftBackward, beq_iff_eq.mp hx]; rfl
  have hstatus := h.reason_le (p := Seen.deviceError config) (by simp [suppressionReasons])
  have hsum := h.suppressed_le
  simp only [suppressionReasons, List.map_cons, List.map_nil, List.sum_cons, List.sum_nil] at hsum
  rw [← a.statusSuppressed config] at hstatus hsum
  constructor
  · change a.count .delivered + a.count .rateLimited + a.count .callbackError + _ +
      max (max (a.seen.countP Seen.duplicate + a.seen.countP Seen.outOfOrder)
        (a.seen.countP Seen.ftStall + a.seen.countP Seen.ftBackward)) _ ≤ _
    omega
  · change _ ≤ a.count .delivered + a.count .rateLimited + a.count .callbackError + _ +
      a.seen.countP Seen.duplicate + a.seen.countP Seen.outOfOrder + a.seen.countP Seen.ftStall +
      a.seen.countP Seen.ftBackward + _
    omega

/-! ## What one record adds -/

/-- One more record was seen. -/
def RecordCounts.see (c : RecordCounts) (x : Seen) : RecordCounts :=
  { c with
    received := c.received + 1
    duplicate := c.duplicate + if x.duplicate then 1 else 0
    outOfOrder := c.outOfOrder + if x.outOfOrder then 1 else 0
    ftStall := c.ftStall + if x.ftStall then 1 else 0
    ftBackward := c.ftBackward + if x.ftBackward then 1 else 0
    deviceError := c.deviceError + if x.severity == .error then 1 else 0 }

theorem countRecord_recordCounts (h : HealthSnapshot) (record : RawRecord) (rate : Nat)
    (rdt : SequenceObservation) (ft : FtSequenceKind) (severity : StatusSeverity) :
    (h.countRecord record rate rdt ft severity).recordCounts
      = h.recordCounts.see ⟨record, rdt.kind, ft, severity⟩ := by
  have hstep : ∀ (p : Prop) [Decidable p] (n : Nat),
      (if p then n + 1 else n) = n + if p then 1 else 0 := by
    intro p _ n
    split <;> rfl
  simp only [HealthSnapshot.recordCounts, HealthSnapshot.countRecord, RecordCounts.see,
    Seen.duplicate, Seen.outOfOrder, Seen.ftStall, Seen.ftBackward, beq_iff_eq]
  congr 1 <;> exact hstep _ _

theorem Accounts.counts_of_seen {b : Accounts} {x : Seen} (hseen : b.seen = a.seen ++ [x]) :
    b.counts = { a.counts.see x with
      delivered := b.count .delivered
      rateLimited := b.count .rateLimited
      callbackError := b.count .callbackError } := by
  simp [Accounts.counts, RecordCounts.see, hseen, List.countP_append, List.countP_singleton]

/-- A record that arrives is counted as limited or not at all, and stays
pending if it is let through. -/
theorem Accounts.arrive_counts (hidle : a.pending = none) (x : Seen) (limited : Bool) :
    (a.arrive config x limited).counts = { a.counts.see x with
      rateLimited := a.counts.rateLimited + if x.eligible config && limited then 1 else 0 } ∧
    ((a.arrive config x limited).pending.isSome = (x.eligible config && !limited)) := by
  have hnone : a.pending.toList = [] := by rw [hidle]; rfl
  unfold Accounts.arrive
  dsimp only
  split
  · rename_i heligible
    refine ⟨?_, by simp [heligible, hidle]⟩
    rw [Accounts.counts_of_seen (a := a) (x := x) (by simp [Accounts.seen, hnone])]
    simp [Accounts.count, Accounts.counts, RecordCounts.see, heligible]
  split
  · rename_i heligible hlimited
    refine ⟨?_, by simp [hlimited, hidle]⟩
    rw [Accounts.counts_of_seen (a := a) (x := x) (by simp [Accounts.seen, hnone])]
    simp [Accounts.count, Accounts.counts, RecordCounts.see, heligible, hlimited]
  · rename_i heligible hlimited
    refine ⟨?_, by simp [heligible, hlimited]⟩
    rw [Accounts.counts_of_seen (a := a) (x := x) (by simp [Accounts.seen, hnone])]
    simp [Accounts.count, Accounts.counts, RecordCounts.see, hlimited]

/-- What the locked section counts. -/
theorem classifyRecord_recordCounts {impl impl' : Impl} {record : RawRecord}
    {receivedAt : TimePoint} {decision : RecordDecision}
    (hclass : impl.classifyRecord config record receivedAt = (impl', .ok decision))
    (hcounts : impl.health.recordCounts = a.counts) (hidle : a.pending = none) :
    impl'.health.recordCounts = (a.arrive config (impl.seen record)
        (rateLimited config impl.lastDeliveryAt receivedAt)).counts ∧
      decision.deliver = (a.arrive config (impl.seen record)
        (rateLimited config impl.lastDeliveryAt receivedAt)).pending.isSome := by
  obtain ⟨hcount, hpending⟩ := @Accounts.arrive_counts config a hidle (impl.seen record)
    (rateLimited config impl.lastDeliveryAt receivedAt)
  rw [hcount, hpending, ← hcounts]
  cases hconf : impl.health.sensorConfiguration with
  | none => simp only [Impl.classifyRecord, hconf, Prod.mk.injEq, reduceCtorEq, and_false] at hclass
  | some configuration =>
    simp only [Impl.classifyRecord, hconf, Prod.mk.injEq, Except.ok.injEq] at hclass
    obtain ⟨rfl, rfl⟩ := hclass
    have hseen := countRecord_recordCounts impl.health record
      (pruneRateWindow (impl.receiveTimes ++ [receivedAt]) receivedAt).length
      (impl.rdtSequence.observe record.rdtSequence).1
      (impl.ftSequence.observe record.ftSequence).1 (classifyStatus record.status)
    change _ = impl.health.recordCounts.see (impl.seen record) at hseen
    have heligible : eligible config (impl.rdtSequence.observe record.rdtSequence).1.kind
        (impl.ftSequence.observe record.ftSequence).1 (classifyStatus record.status)
        = (impl.seen record).eligible config := rfl
    dsimp only
    rw [heligible, ← hseen]
    refine ⟨?_, by cases (impl.seen record).eligible config <;> rfl⟩
    split <;> rfl

theorem Accounts.settle_counts (h : a.pending.isSome = true) :
    (a.settle .delivered).counts = { a.counts with delivered := a.counts.delivered + 1 } ∧
      (a.settle .callbackError).counts
        = { a.counts with callbackError := a.counts.callbackError + 1 } := by
  obtain ⟨x, hx⟩ := Option.isSome_iff_exists.mp h
  have hseen : ∀ fate, (a.settle fate).seen = a.seen := by
    intro fate
    simp [Accounts.settle, Accounts.seen, hx]
  constructor <;>
  · simp only [Accounts.counts, hseen, RecordCounts.mk.injEq]
    simp [Accounts.settle, hx, Accounts.count]

theorem Accounts.settle_pending (a : Accounts) (fate : Fate) : (a.settle fate).pending = none := by
  unfold Accounts.settle
  split
  · assumption
  · rfl

end Accounts

/-! ## Runs -/

/-- Between the two locked sections of `handle_record`. -/
def WorkerPc.entrusted : WorkerPc → Bool
  | .callback _ _ _ | .callbackFailed _ _ _ | .delivered _ _ _ => true
  | _ => false

theorem WorkerPc.part_of_entrusted {pc : WorkerPc} (h : pc.entrusted = true) :
    pc.part ≠ .run := by
  cases pc <;> simp_all [WorkerPc.entrusted, WorkerPc.part]

theorem WorkerPc.entrusted_outside {pc : WorkerPc} (h : pc.handles = false) :
    pc.entrusted = false := by
  cases pc <;> first | rfl | cases h

structure AccountsWf (config : Config) (s : Sys) (a : Accounts) : Prop where
  counts : s.shared.health.recordCounts = a.counts
  consistent : a.Consistent config
  pending : a.pending.isSome = true ↔ ∃ pc, s.At pc ∧ pc.entrusted = true

section System

variable {P : Platform} {config : Config} {s s' : Sys} {a : Accounts}

theorem recordCounts_of_counts {h h' : HealthSnapshot} (hcounts : h'.counts = h.counts) :
    h'.recordCounts = h.recordCounts := by
  change h'.counts.recordCounts = h.counts.recordCounts
  rw [hcounts]

theorem WorkerPc.counted_recordCounts (pc : WorkerPc) (impl : Impl) :
    (pc.counted impl).health.recordCounts = impl.health.recordCounts := by
  cases pc
  case timedOut =>
    dsimp only [WorkerPc.counted]
    split <;> rfl
  case applyConfiguration configuration =>
    dsimp only [WorkerPc.counted, Impl.applyConfiguration]
    split
    · rfl
    · split <;> rfl
  all_goals rfl

theorem Accounts.atWorker_outside {pc : WorkerPc} (h : pc.handles = false) (a : Accounts)
    (shared : Shared) : a.atWorker config shared pc = a := by
  cases pc <;> first | rfl | cases h

/-- What one step of the handling thread leaves in the books. -/
theorem RecordMove.accounts {shared shared' : Shared} {pc pc' : WorkerPc}
    (hmove : RecordMove P config shared shared' pc pc')
    (hscales : ∀ rx record receivedAt, pc = .classify rx record receivedAt →
      shared.health.sensorConfiguration.isSome = true ∧
        ∀ impl decision, shared.toImpl.classifyRecord config record receivedAt
            = (impl, .ok decision) →
          ∃ sample, scaleSample P decision.configuration record receivedAt = some sample)
    (hcounts : shared.health.recordCounts = a.counts) (hconsistent : a.Consistent config)
    (hpending : a.pending.isSome = pc.entrusted) :
    shared'.health.recordCounts = (a.atWorker config shared pc).counts ∧
      (a.atWorker config shared pc).Consistent config ∧
      (a.atWorker config shared pc).pending.isSome = pc'.entrusted := by
  cases hmove with
  | outside before after tally =>
    rw [a.atWorker_outside before, hpending, WorkerPc.entrusted_outside before,
      WorkerPc.entrusted_outside after, ← hcounts, ← pc.counted_recordCounts shared.toImpl]
    exact ⟨recordCounts_of_counts (congrArg Tally.counts tally), hconsistent, rfl⟩
  | arrives impl =>
    refine ⟨?_, hconsistent, hpending⟩
    rw [impl]
    exact hcounts
  | refused missing =>
    have hconf := (hscales _ _ _ rfl).1
    rw [missing] at hconf
    cases hconf
  | settled classified kept after =>
    have hidle : a.pending = none := by simpa [WorkerPc.entrusted] using hpending
    obtain ⟨hcount, hdeliver⟩ := classifyRecord_recordCounts classified hcounts hidle
    rw [Accounts.atWorker, if_pos (hscales _ _ _ rfl).1]
    refine ⟨hcount, hconsistent.arrive hidle _ _, ?_⟩
    rw [← hdeliver, kept, WorkerPc.entrusted_outside after]
  | unscaled classified scaled =>
    obtain ⟨sample, hsome⟩ := (hscales _ _ _ rfl).2 _ _ classified
    rw [scaled] at hsome
    cases hsome
  | handed classified deliver _ after =>
    have hidle : a.pending = none := by simpa [WorkerPc.entrusted] using hpending
    obtain ⟨hcount, hdeliver⟩ := classifyRecord_recordCounts classified hcounts hidle
    rw [Accounts.atWorker, if_pos (hscales _ _ _ rfl).1]
    refine ⟨hcount, hconsistent.arrive hidle _ _, ?_⟩
    rw [← hdeliver, deliver]
    rcases after with rfl | rfl <;> rfl
  | returned same =>
    rw [same]
    exact ⟨hcounts, hconsistent, hpending⟩
  | threw same =>
    rw [same]
    exact ⟨hcounts, hconsistent, hpending⟩
  | failed impl after =>
    refine ⟨?_, hconsistent.settle (by decide), ?_⟩
    · rw [Accounts.atWorker, (a.settle_counts hpending).2, ← hcounts, impl]
      rfl
    · rw [Accounts.atWorker, a.settle_pending, WorkerPc.entrusted_outside after]
      rfl
  | delivered impl after =>
    refine ⟨?_, hconsistent.settle (by decide), ?_⟩
    · rw [Accounts.atWorker, (a.settle_counts hpending).1, ← hcounts, impl]
      rfl
    · rw [Accounts.atWorker, a.settle_pending, WorkerPc.entrusted_outside after]
      rfl

theorem AccountsWf.step (ha : AccountsWf config s a) (hwf : s.Wf) (hcounts : s.CountsWf)
    (hvalid : s.ValidWf config) {l : Label} (hstep : s.step P config l = some s') :
    AccountsWf config s' (a.record config s l s') := by
  rcases record_of_step hwf hcounts hstep with
    ⟨hnot, hsame, hat⟩ | ⟨w, choice, t, t', shared', rfl, ht, rfl, step, hat⟩
  · have hrecord : a.record config s l s' = a := by
      cases l with
      | worker w choice => exact absurd rfl (hnot w choice)
      | _ => rfl
    rw [hrecord]
    refine ⟨(recordCounts_of_counts hsame).trans ha.counts, ha.consistent, ha.pending.trans ?_⟩
    exact exists_congr fun pc => and_congr_left fun hpc =>
      (hat pc (WorkerPc.part_of_entrusted hpc)).symm
  · have hplace : ∀ {u : Sys} {v : Worker}, (∀ pc, pc.part ≠ .run → (u.At pc ↔ v.pc = pc)) →
        ((∃ pc, u.At pc ∧ pc.entrusted = true) ↔ v.pc.entrusted = true) := by
      intro u v huv
      constructor
      · rintro ⟨pc, hin, hpc⟩
        rw [(huv pc (WorkerPc.part_of_entrusted hpc)).mp hin]
        exact hpc
      · intro hv
        exact ⟨v.pc, (huv v.pc (WorkerPc.part_of_entrusted hv)).mpr rfl, hv⟩
    have hrecord : a.record config s (.worker w choice) ((s.withShared shared').setWorker w t')
        = a.atWorker config s.shared t.pc := by
      simp [Accounts.record, ht]
    have hpending : a.pending.isSome = t.pc.entrusted :=
      Bool.eq_iff_iff.mpr (ha.pending.trans (hplace fun pc hpc => (hat pc hpc).1))
    obtain ⟨hcount, hconsistent, hafter⟩ := (workerStep_record step).accounts
      (fun rx record receivedAt hpc => hvalid.classifies ht hpc) ha.counts ha.consistent hpending
    rw [hrecord]
    refine ⟨hcount, hconsistent, ?_⟩
    rw [hafter]
    exact (hplace fun pc hpc => (hat pc hpc).2).symm

theorem accountsWf_of_reachable {p : Sys × Accounts}
    (hreach : (accountLts P config).Reachable p) : AccountsWf config p.1 p.2 := by
  refine Lts.Reach.recorded_invariant ?_ ?_ hreach
  · rintro s ⟨clock, -, rfl⟩
    refine ⟨rfl, .empty, iff_of_false Bool.false_ne_true ?_⟩
    rintro ⟨pc, ⟨w, t, ht, -⟩, -⟩
    cases ht
  · intro s a l t _ hs hstep ha
    exact ha.step (wf_of_reachable hs) (countsWf_of_reachable hs) (validWf_of_reachable hs) hstep

/-- **The health counters account for every received record.** In every
run: the counted records are, in order, those with a fate and at most one
that is still in progress; `received_count` and the counters are the
counts over them, and a record is suppressed exactly if it has a reason.
So with nothing in progress, `received_count` lies between the two bounds;
while a thread is between the two locked sections of `handle_record` it
exceeds them by the one record in progress, and every snapshot of
`health()` satisfies the same relations. Along every run, over any
starts, stops and rolled-back starts, no counter goes down. -/
theorem received_accounted (P : Platform) (config : Config) {s : Sys} {a : Accounts}
    (hreach : (accountLts P config).Reachable (s, a)) :
    (a.records = (a.settled.map fun e => e.1.record) ++ (a.pending.map Seen.record).toList ∧
      (∀ e ∈ a.settled, e.2 = .suppressed ↔ e.1.eligible config = false) ∧
      s.shared.health.receivedCount = s.shared.health.deliveredCount +
        s.shared.health.rateLimitedCount + s.shared.health.callbackErrorCount +
        a.count .suppressed + a.pending.toList.length) ∧
    ((∀ w t, s.workers w = some t → t.pc.entrusted = false) →
      s.shared.health.recordCounts.Accounted config 0) ∧
    (∃ inProgress ≤ 1, s.shared.health.recordCounts.Accounted config inProgress ∧
      ∀ c caller op choice t snapshot, s.calls c = some ⟨caller, op, .healthEnter⟩ →
        s.step P config (.call c choice) = some t →
        t.calls c = some ⟨caller, op, .returned (.snapshot snapshot)⟩ →
        snapshot.recordCounts.Accounted config inProgress) ∧
    ∀ labels t, (clientLts P config).Path (fun _ _ => True) s labels t →
      s.shared.health.CountersLe t.shared.health := by
  have ha : AccountsWf config s a := accountsWf_of_reachable hreach
  have haccounted := ha.consistent.accounted
  rw [← ha.counts] at haccounted
  refine ⟨⟨?_, ha.consistent.settled, ?_⟩, ?_, ⟨_, ?_, haccounted, ?_⟩, ?_⟩
  · rw [ha.consistent.records, Accounts.seen, List.map_append, List.map_map]
    cases a.pending <;> rfl
  · have hreceived := congrArg RecordCounts.received ha.counts
    have hdelivered := congrArg RecordCounts.delivered ha.counts
    have hlimited := congrArg RecordCounts.rateLimited ha.counts
    have herror := congrArg RecordCounts.callbackError ha.counts
    change s.shared.health.receivedCount = a.seen.length at hreceived
    change s.shared.health.deliveredCount = a.count .delivered at hdelivered
    change s.shared.health.rateLimitedCount = a.count .rateLimited at hlimited
    change s.shared.health.callbackErrorCount = a.count .callbackError at herror
    rw [hreceived, hdelivered, hlimited, herror, ← a.length_settled]
    simp [Accounts.seen]
  · intro hout
    have hidle : a.pending = none := by
      by_contra hsome
      obtain ⟨pc, ⟨w, t, ht, rfl⟩, hpc⟩ := ha.pending.mp (Option.isSome_iff_ne_none.mpr hsome)
      rw [hout w t ht] at hpc
      cases hpc
    rw [hidle] at haccounted
    exact haccounted
  · cases a.pending <;> simp
  · intro c caller op choice t snapshot hc hstep ht
    rw [health_step hc choice] at hstep
    cases hstep
    rw [Sys.setCall_calls_self] at ht
    cases ht
    exact haccounted
  · intro labels t hpath
    exact countersLe_of_path hpath (Lts.Reach.unrecorded hreach)

end System

/-- The same record once more: a duplicate and a stall. -/
def repeatedRecord : List Label :=
  [.worker 0 .go, .worker 0 .go, .worker 0 .go, .worker 0 (.poll (.ready false)), .worker 0 .go,
   .worker 0 (.recv (.datagram (List.replicate 36 0))), .worker 0 .go, .worker 0 .go,
   .worker 0 .go]

/-- One record delivered and one suppressed for two reasons. -/
theorem received_accounted_repeated :
    ∃ s a, (accountLts exactPlatform overrideConfig).Reachable (s, a) ∧
      s.shared.health.recordCounts = ⟨2, 1, 0, 0, 1, 0, 1, 0, 0⟩ ∧
      a.count .suppressed = 1 ∧ a.pending = none ∧
      s.shared.health.recordCounts.Accounted overrideConfig 0 := by
  have hinit : (accountLts exactPlatform overrideConfig).Reachable
      (Sys.new overrideConfig 1000, {}) :=
    Lts.Reachable.init ⟨⟨1000, overrideConfig_valid, rfl⟩, rfl⟩
  obtain ⟨⟨s, a⟩, hs, hp⟩ := Lts.exists_of_exec (l := streamingRun ++ repeatedRecord)
    (p := fun p : Sys × Accounts => decide (
      p.1.shared.health.recordCounts = ⟨2, 1, 0, 0, 1, 0, 1, 0, 0⟩ ∧ p.2.count .suppressed = 1 ∧
      p.2.pending = none ∧ (p.1.workers 0).any (fun t => !t.pc.entrusted) ∧ p.1.created = 1))
    hinit (by decide +kernel)
  obtain ⟨hcounts, hsuppressed, hpending, hout, hcreated⟩ := of_decide_eq_true hp
  dsimp only at hcounts hsuppressed hpending hout hcreated
  refine ⟨s, a, hs, hcounts, hsuppressed, hpending, ?_⟩
  refine (received_accounted exactPlatform overrideConfig hs).2.1 fun w t ht => ?_
  have hwf := wf_of_reachable (Lts.Reach.unrecorded hs)
  have hlt : w < s.created := (hwf.workers.created w).mp (by rw [ht]; rfl)
  obtain rfl : w = 0 := by omega
  rw [ht] at hout
  simpa using hout

end PyNetFT.Core
