/-
PyNetFT.Core.Sequence — the two 32-bit sequence trackers of
`detail/sequence.cpp`.

`RdtSequenceTracker` numbers the datagrams of one session and is reset
by `receive_session` and by `bias`. `FtSequenceTracker` follows the
acquisition counter across sessions: only its restart candidate is
cleared by `beginSession`, the baseline `previous` survives sessions,
faults, `stop` and `start`.

All differences are taken in `UInt32`, so "ahead" means ahead by less
than half the range; `ahead_iff` and its companions translate that to
the unbounded counters the sensor really has.
-/
import Mathlib.Data.Nat.Basic
import Mathlib.Tactic.NormNum

namespace PyNetFT.Core

/-- `kRestartLowMax`. -/
def restartLowMax : UInt32 := 0x0000ffff

/-- `kRestartMinBaseline`. -/
def restartMinBaseline : UInt32 := restartLowMax + 1

/-! ## The RDT tracker -/

inductive SequenceKind where
  | first | contiguous | gap | duplicate | outOfOrder
  deriving DecidableEq

structure SequenceObservation where
  kind : SequenceKind
  gap : UInt32 := 0
  deriving DecidableEq

structure RdtSequenceTracker where
  hasLast : Bool := false
  previous : UInt32 := 0
  deriving DecidableEq

namespace RdtSequenceTracker

/-- `RdtSequenceTracker::observe`. -/
def observe (t : RdtSequenceTracker) (current : UInt32) :
    SequenceObservation × RdtSequenceTracker :=
  if t.hasLast = false then
    (⟨.first, 0⟩, { t with hasLast := true, previous := current })
  else
    let delta := current - t.previous
    if delta = 0 then (⟨.duplicate, 0⟩, t)
    else if delta < 0x80000000 then
      (if delta = 1 then ⟨.contiguous, 0⟩ else ⟨.gap, delta - 1⟩,
        { t with previous := current })
    else (⟨.outOfOrder, 0⟩, t)

/-- `RdtSequenceTracker::reset`. -/
def reset (t : RdtSequenceTracker) : RdtSequenceTracker := { t with hasLast := false }

end RdtSequenceTracker

/-- A record is RDT-fresh when the tracker neither saw its number nor a
later one: only such records may be delivered. -/
def SequenceKind.fresh : SequenceKind → Bool
  | .first | .contiguous | .gap => true
  | .duplicate | .outOfOrder => false

/-! ## The FT tracker -/

inductive FtSequenceKind where
  | first | forward | stall | backward | restart
  deriving DecidableEq

structure FtSequenceTracker where
  hasLast : Bool := false
  previous : UInt32 := 0
  hasRestartCandidate : Bool := false
  restartCandidate : UInt32 := 0
  deriving DecidableEq

namespace FtSequenceTracker

/-- `FtSequenceTracker::begin_session`. -/
def beginSession (t : FtSequenceTracker) : FtSequenceTracker :=
  { t with hasRestartCandidate := false }

/-- The restart test of `observe`: the baseline is past the low range
and the previous backward number and this one ascend inside it. -/
def restarts (t : FtSequenceTracker) (current : UInt32) : Bool :=
  decide (restartMinBaseline ≤ t.previous) && t.hasRestartCandidate &&
    decide (t.restartCandidate ≤ restartLowMax) && decide (current ≤ restartLowMax) &&
    (let candidateDelta := current - t.restartCandidate
     decide (0 < candidateDelta) && decide (candidateDelta < 0x80000000))

/-- `FtSequenceTracker::observe`. -/
def observe (t : FtSequenceTracker) (current : UInt32) :
    FtSequenceKind × FtSequenceTracker :=
  if t.hasLast = false then
    (.first, { t with hasLast := true, previous := current })
  else if current = t.previous then
    (.stall, { t with hasRestartCandidate := false })
  else
    let delta := current - t.previous
    if delta < 0x80000000 then
      (.forward, { t with previous := current, hasRestartCandidate := false })
    else if t.restarts current = true then
      (.restart, { t with previous := current, hasRestartCandidate := false })
    else
      (.backward, { t with hasRestartCandidate := true, restartCandidate := current })

end FtSequenceTracker

/-! ## Modular distance against unbounded counters -/

/-- The sensor sends an unbounded counter modulo `2^32`. -/
theorem toNat_sub_ofNat (m n : Nat) :
    (UInt32.ofNat n - UInt32.ofNat m).toNat
      = (2 ^ 32 - m % 2 ^ 32 + n % 2 ^ 32) % 2 ^ 32 := by
  rw [UInt32.toNat_sub]
  simp only [UInt32.toNat_ofNat']

theorem sub_eq_zero_iff (m n : Nat) (h : n < m + 2 ^ 31) (h' : m < n + 2 ^ 31) :
    UInt32.ofNat n - UInt32.ofNat m = 0 ↔ n = m := by
  have hsub := toNat_sub_ofNat m n
  rw [← UInt32.toNat_inj, hsub]
  simp only [UInt32.toNat_zero]
  omega

/-- Within half the range, being in the forward half means being later
or equal. -/
theorem ahead_iff (m n : Nat) (h : n < m + 2 ^ 31) (h' : m < n + 2 ^ 31) :
    UInt32.ofNat n - UInt32.ofNat m < 0x80000000 ↔ m ≤ n := by
  have hsub := toNat_sub_ofNat m n
  rw [UInt32.lt_iff_toNat_lt, hsub]
  show _ < 2147483648 ↔ _
  omega

end PyNetFT.Core
