/-
PyNetFT.Lib.Rounding — the rounding directions of IEEE arithmetic, over
any finite set of numbers.

A format is a finite symmetric set of numbers with a greatest one, and
the magnitude from which rounding to nearest overflows. What an exact
value becomes in a direction is a relation: which of two equally near
numbers a tie takes is left open, so both tie rules are instances. The
result is that no direction leaves the format for a value that is no
larger than its greatest number (`Direction.Rounds.isFinite`). Every value
can be rounded in every direction (`Direction.exists_rounds`).
-/
import Mathlib.Algebra.Order.Group.Abs
import Mathlib.Order.Bounds.Basic
import Mathlib.Data.Set.Finite.Lemmas

namespace PyNetFT.Lib

variable {K : Type} [AddCommGroup K] [LinearOrder K]

/-- `limit` is the magnitude from which rounding to nearest overflows. -/
structure NumberFormat (K : Type) [AddCommGroup K] [LinearOrder K] where
  numbers : Set K
  top : K
  limit : K
  finite : numbers.Finite
  top_mem : top ∈ numbers
  neg_mem : ∀ x ∈ numbers, -x ∈ numbers
  le_top : ∀ x ∈ numbers, x ≤ top
  top_lt : top < limit

inductive Direction where
  | tiesToEven | tiesToAway | towardPositive | towardNegative | towardZero
  deriving DecidableEq

inductive Rounded (K : Type) where
  | infinite (negative : Bool)
  | finite (value : K)

/-- `r` is what the exact value `x` may become. -/
def Direction.Rounds (F : NumberFormat K) : Direction → K → Rounded K → Prop
  | .towardPositive, x, .finite y => IsLeast {y | y ∈ F.numbers ∧ x ≤ y} y
  | .towardPositive, x, .infinite negative => negative = false ∧ ∀ y ∈ F.numbers, y < x
  | .towardNegative, x, .finite y => IsGreatest {y | y ∈ F.numbers ∧ y ≤ x} y
  | .towardNegative, x, .infinite negative => negative = true ∧ ∀ y ∈ F.numbers, x < y
  | .towardZero, x, .finite y =>
      0 ≤ x ∧ IsGreatest {y | y ∈ F.numbers ∧ y ≤ x} y ∨
        x < 0 ∧ IsLeast {y | y ∈ F.numbers ∧ x ≤ y} y
  | .towardZero, _, .infinite _ => False
  -- to nearest; the tie rules only choose between equally near numbers
  | .tiesToEven, x, .finite y | .tiesToAway, x, .finite y =>
      |x| < F.limit ∧ y ∈ F.numbers ∧ ∀ z ∈ F.numbers, |x - y| ≤ |x - z|
  | .tiesToEven, x, .infinite negative | .tiesToAway, x, .infinite negative =>
      F.limit ≤ |x| ∧ (negative = true ↔ x < 0)

section Rounds

variable {F : NumberFormat K} {d : Direction} {x : K} {r : Rounded K}

/-- The number just above, and the one just below. -/
theorem NumberFormat.exists_above (F : NumberFormat K) (hx : x ≤ F.top) :
    ∃ y, IsLeast {y | y ∈ F.numbers ∧ x ≤ y} y := by
  have hfinite : {y | y ∈ F.numbers ∧ x ≤ y}.Finite := F.finite.subset fun _ hy => hy.1
  obtain ⟨y, hy, hmin⟩ := Set.exists_min_image _ id hfinite ⟨F.top, F.top_mem, hx⟩
  exact ⟨y, hy, hmin⟩

theorem NumberFormat.exists_below (F : NumberFormat K) (hx : -F.top ≤ x) :
    ∃ y, IsGreatest {y | y ∈ F.numbers ∧ y ≤ x} y := by
  have hfinite : {y | y ∈ F.numbers ∧ y ≤ x}.Finite := F.finite.subset fun _ hy => hy.1
  obtain ⟨y, hy, hmax⟩ := Set.exists_max_image _ id hfinite ⟨-F.top, F.neg_mem _ F.top_mem, hx⟩
  exact ⟨y, hy, hmax⟩

theorem NumberFormat.exists_nearest (F : NumberFormat K) (x : K) :
    ∃ y ∈ F.numbers, ∀ z ∈ F.numbers, |x - y| ≤ |x - z| :=
  Set.exists_min_image _ (fun y => |x - y|) F.finite ⟨F.top, F.top_mem⟩

variable [IsOrderedAddMonoid K]

/-- **No direction overflows inside the range of the format.** -/
theorem Direction.Rounds.isFinite (h : d.Rounds F x r) (hx : |x| ≤ F.top) :
    ∃ y ∈ F.numbers, r = .finite y := by
  obtain ⟨hlower, hupper⟩ := abs_le.mp hx
  have hlimit : ¬ F.limit ≤ |x| := not_le.mpr (hx.trans_lt F.top_lt)
  cases r with
  | infinite negative =>
    cases d with
    | towardPositive => exact absurd (h.2 F.top F.top_mem) (not_lt.mpr hupper)
    | towardNegative => exact absurd (h.2 _ (F.neg_mem _ F.top_mem)) (not_lt.mpr hlower)
    | towardZero => exact h.elim
    | tiesToEven => exact absurd h.1 hlimit
    | tiesToAway => exact absurd h.1 hlimit
  | finite y =>
    refine ⟨y, ?_, rfl⟩
    cases d with
    | towardPositive => exact h.1.1
    | towardNegative => exact h.1.1
    | towardZero => exact h.elim (fun h => h.2.1.1) fun h => h.2.1.1
    | tiesToEven => exact h.2.1
    | tiesToAway => exact h.2.1

theorem Direction.exists_rounds (d : Direction) (F : NumberFormat K) (x : K) :
    ∃ r, d.Rounds F x r := by
  have habove : F.top < x → ∀ y ∈ F.numbers, y < x := fun h y hy => (F.le_top y hy).trans_lt h
  have hbelow : x < -F.top → ∀ y ∈ F.numbers, x < y := fun h y hy =>
    h.trans_le (neg_le.mp (F.le_top _ (F.neg_mem y hy)))
  have htop : -F.top ≤ F.top := F.le_top _ (F.neg_mem _ F.top_mem)
  have hnearest : (∃ y, |x| < F.limit ∧ y ∈ F.numbers ∧ ∀ z ∈ F.numbers, |x - y| ≤ |x - z|) ∨
      ∃ negative, F.limit ≤ |x| ∧ (negative = true ↔ x < 0) := by
    rcases lt_or_ge |x| F.limit with hlimit | hlimit
    · obtain ⟨y, hy, hmin⟩ := F.exists_nearest x
      exact .inl ⟨y, hlimit, hy, hmin⟩
    · exact .inr ⟨decide (x < 0), hlimit, decide_eq_true_iff⟩
  cases d with
  | towardPositive =>
    rcases le_or_gt x F.top with hle | hgt
    · obtain ⟨y, hy⟩ := F.exists_above hle
      exact ⟨.finite y, hy⟩
    · exact ⟨.infinite false, rfl, habove hgt⟩
  | towardNegative =>
    rcases le_or_gt (-F.top) x with hle | hgt
    · obtain ⟨y, hy⟩ := F.exists_below hle
      exact ⟨.finite y, hy⟩
    · exact ⟨.infinite true, rfl, hbelow hgt⟩
  | towardZero =>
    have hzero : -F.top ≤ 0 := by
      rcases le_or_gt 0 F.top with hpos | hneg
      · exact neg_nonpos.mpr hpos
      · exact htop.trans hneg.le
    rcases le_or_gt 0 x with hpos | hneg
    · obtain ⟨y, hy⟩ := F.exists_below (hzero.trans hpos)
      exact ⟨.finite y, .inl ⟨hpos, hy⟩⟩
    · obtain ⟨y, hy⟩ := F.exists_above (hneg.le.trans (neg_nonpos.mp hzero))
      exact ⟨.finite y, .inr ⟨hneg, hy⟩⟩
  | tiesToEven =>
    rcases hnearest with ⟨y, hy⟩ | ⟨negative, hover⟩
    · exact ⟨.finite y, hy⟩
    · exact ⟨.infinite negative, hover⟩
  | tiesToAway =>
    rcases hnearest with ⟨y, hy⟩ | ⟨negative, hover⟩
    · exact ⟨.finite y, hy⟩
    · exact ⟨.infinite negative, hover⟩

end Rounds

end PyNetFT.Lib
