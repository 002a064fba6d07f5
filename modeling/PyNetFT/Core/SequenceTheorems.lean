/-
PyNetFT.Core.SequenceTheorems — one observation of a sequence tracker.

A case lemma per result, stated on the modular distance alone, and what
the low range means for the FT tracker: its numbers are ahead of each
other in plain order, and none of them is a baseline past it.
-/
import PyNetFT.Core.Types
import PyNetFT.Core.Sequence

namespace PyNetFT.Core

namespace RdtSequenceTracker

variable {t : RdtSequenceTracker}

theorem observe_first (h : t.hasLast = false) (x : UInt32) :
    t.observe x = (⟨.first, 0⟩, ⟨true, x⟩) := by
  simp [observe, h]

/-- Against the true counters: `m` is the number behind `previous`, `n`
the number observed. -/
theorem observe_fresh_iff {m n : Nat} (hl : t.hasLast = true)
    (hp : t.previous = UInt32.ofNat m) (h : n < m + 2 ^ 31) (h' : m < n + 2 ^ 31) :
    (t.observe (UInt32.ofNat n)).1.kind.fresh = true ↔ m < n := by
  have hzero := sub_eq_zero_iff m n h h'
  have hahead := ahead_iff m n h h'
  simp only [observe, hl, hp, Bool.true_eq_false, if_false, hzero, hahead]
  split
  · simp [SequenceKind.fresh]; omega
  · split
    · have hmn : m < n := by omega
      split <;> simp [SequenceKind.fresh, hmn]
    · simp [SequenceKind.fresh]; omega

/-- The tracker keeps the larger of the two numbers. -/
theorem observe_previous {m n : Nat} (hl : t.hasLast = true)
    (hp : t.previous = UInt32.ofNat m) (h : n < m + 2 ^ 31) (h' : m < n + 2 ^ 31) :
    (t.observe (UInt32.ofNat n)).2 = ⟨true, UInt32.ofNat (max m n)⟩ := by
  have hzero := sub_eq_zero_iff m n h h'
  have hahead := ahead_iff m n h h'
  simp only [observe, hl, hp, Bool.true_eq_false, if_false, hzero, hahead]
  split
  · rename_i heq
    subst heq
    cases t
    simp_all
  · split
    · rename_i hne hle
      simp [Nat.max_eq_right hle]
    · rename_i hne hle
      rw [Nat.max_eq_left (by omega)]
      cases t
      simp_all

end RdtSequenceTracker

namespace FtSequenceTracker

variable {t : FtSequenceTracker} {x : UInt32}

@[simp] theorem beginSession_hasRestartCandidate :
    t.beginSession.hasRestartCandidate = false := rfl

theorem observe_forward (hl : t.hasLast = true) (hne : x ≠ t.previous)
    (hd : x - t.previous < 0x80000000) :
    t.observe x = (.forward, { t with previous := x, hasRestartCandidate := false }) := by
  simp [observe, hl, hne, hd]

theorem observe_restart (hl : t.hasLast = true) (hne : x ≠ t.previous)
    (hd : ¬ x - t.previous < 0x80000000) (hr : t.restarts x = true) :
    t.observe x = (.restart, { t with previous := x, hasRestartCandidate := false }) := by
  simp [observe, hl, hne, hd, hr]

theorem observe_backward (hl : t.hasLast = true) (hne : x ≠ t.previous)
    (hd : ¬ x - t.previous < 0x80000000) (hr : t.restarts x = false) :
    t.observe x = (.backward, { t with hasRestartCandidate := true, restartCandidate := x }) := by
  simp [observe, hl, hne, hd, hr]

/-- Whatever the result, the baseline is the old one or the number just
observed. -/
theorem observe_previous_cases (t : FtSequenceTracker) (x : UInt32) :
    (t.observe x).2.hasLast = true ∧
      (t.hasLast = true ∧ (t.observe x).2.previous = t.previous ∨
        (t.observe x).2.previous = x) := by
  unfold observe
  by_cases hl : t.hasLast = true
  · simp only [hl, Bool.true_eq_false, if_false, true_and]
    split
    · simp
    · split
      · simp
      · split <;> simp
  · simp [hl]

theorem restarts_no_candidate (h : t.hasRestartCandidate = false) :
    t.restarts x = false := by
  simp [restarts, h]

/-- The restart test on two low numbers in ascending order. -/
theorem restarts_of_ascending (hb : restartMinBaseline ≤ t.previous)
    (hc : t.hasRestartCandidate = true) (hlt : t.restartCandidate < x)
    (hx : x ≤ restartLowMax) : t.restarts x = true := by
  have hlow : t.restartCandidate ≤ restartLowMax := by
    rw [UInt32.le_iff_toNat_le]
    rw [UInt32.lt_iff_toNat_lt] at hlt
    rw [UInt32.le_iff_toNat_le] at hx
    omega
  have hdist : (x - t.restartCandidate).toNat = x.toNat - t.restartCandidate.toNat := by
    rw [UInt32.lt_iff_toNat_lt] at hlt
    rw [UInt32.toNat_sub]
    have hx32 := UInt32.toNat_lt x
    omega
  have hpos : 0 < x - t.restartCandidate := by
    rw [UInt32.lt_iff_toNat_lt, hdist]
    rw [UInt32.lt_iff_toNat_lt] at hlt
    simp only [UInt32.toNat_zero]
    omega
  have hhalf : x - t.restartCandidate < 0x80000000 := by
    rw [UInt32.lt_iff_toNat_lt, hdist]
    rw [UInt32.le_iff_toNat_le] at hx
    show _ < 2147483648
    have : restartLowMax.toNat = 65535 := rfl
    omega
  simp [restarts, hb, hc, hlow, hx, hpos, hhalf]

/-- Low numbers in ascending order are ahead of each other. -/
theorem low_ahead {p : UInt32} (hlt : p < x) (hx : x ≤ restartLowMax) :
    x ≠ p ∧ x - p < 0x80000000 := by
  rw [UInt32.lt_iff_toNat_lt] at hlt
  rw [UInt32.le_iff_toNat_le] at hx
  have hmax : restartLowMax.toNat = 65535 := rfl
  constructor
  · rintro rfl
    omega
  · rw [UInt32.lt_iff_toNat_lt, UInt32.toNat_sub]
    show _ < 2147483648
    omega

/-- A baseline past the low range is never a low number. -/
theorem low_ne_baseline (hb : restartMinBaseline ≤ t.previous) (hx : x ≤ restartLowMax) :
    x ≠ t.previous := by
  rintro rfl
  rw [UInt32.le_iff_toNat_le] at hb hx
  have hmin : restartMinBaseline.toNat = 65536 := rfl
  have hmax : restartLowMax.toNat = 65535 := rfl
  omega

/-- Behind a baseline past the low range, later low numbers are behind
as well. -/
theorem behind_of_behind {a b : UInt32} (hb : restartMinBaseline ≤ t.previous)
    (hab : a < b) (hlow : b ≤ restartLowMax) (hd : ¬ a - t.previous < 0x80000000) :
    ¬ b - t.previous < 0x80000000 := by
  rw [UInt32.lt_iff_toNat_lt, UInt32.toNat_sub] at hd ⊢
  rw [UInt32.le_iff_toNat_le] at hb hlow
  rw [UInt32.lt_iff_toNat_lt] at hab
  have hmin : restartMinBaseline.toNat = 65536 := rfl
  have hmax : restartLowMax.toNat = 65535 := rfl
  have hhalf : (0x80000000 : UInt32).toNat = 2147483648 := rfl
  have hp := UInt32.toNat_lt t.previous
  omega

end FtSequenceTracker

end PyNetFT.Core
