/-
PyNetFT.Lib.RunningMaxima — the elements of a sequence that exceed
everything before them.

`runningMaxima key seen xs` walks `xs` with the list `seen` of what came
before and keeps an element exactly when its key is above the keys of
all earlier ones. It is the specification of "in order, once each, never
late" for any numbering in a linear order.
-/
import Mathlib.Order.Lattice
import Mathlib.Order.Defs.LinearOrder

namespace PyNetFT.Lib

variable {α κ : Type} [LinearOrder κ]

/-- The elements of `xs` whose key exceeds all earlier ones, `seen`
included. -/
def runningMaxima (key : α → κ) (seen : List α) : List α → List α
  | [] => []
  | x :: xs =>
      if ∀ y ∈ seen, key y < key x then x :: runningMaxima key (x :: seen) xs
      else runningMaxima key (x :: seen) xs

/-- `m` is the greatest key seen so far. -/
def IsGreatestSeen (key : α → κ) (seen : List α) (m : κ) : Prop :=
  (∃ y ∈ seen, key y = m) ∧ ∀ y ∈ seen, key y ≤ m

theorem IsGreatestSeen.above_iff {key : α → κ} {seen : List α} {m : κ}
    (h : IsGreatestSeen key seen m) (x : α) :
    (∀ y ∈ seen, key y < key x) ↔ m < key x := by
  obtain ⟨⟨y, hy, hkey⟩, hle⟩ := h
  constructor
  · intro hall
    exact hkey ▸ hall y hy
  · intro hm z hz
    exact lt_of_le_of_lt (hle z hz) hm

theorem isGreatestSeen_singleton (key : α → κ) (x : α) :
    IsGreatestSeen key [x] (key x) := by
  simp [IsGreatestSeen]

/-- One more element: the greatest key becomes the larger of the two. -/
theorem IsGreatestSeen.cons {key : α → κ} {seen : List α} {m : κ}
    (h : IsGreatestSeen key seen m) (x : α) :
    IsGreatestSeen key (x :: seen) (max m (key x)) := by
  obtain ⟨⟨y, hy, hkey⟩, hle⟩ := h
  constructor
  · rcases le_total m (key x) with hmx | hmx
    · exact ⟨x, by simp, (max_eq_right hmx).symm⟩
    · exact ⟨y, by simp [hy], by rw [hkey, max_eq_left hmx]⟩
  · intro z hz
    rcases List.mem_cons.mp hz with rfl | hz
    · exact le_max_right _ _
    · exact le_trans (hle z hz) (le_max_left _ _)

end PyNetFT.Lib
