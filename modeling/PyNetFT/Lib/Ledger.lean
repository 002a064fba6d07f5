/-
PyNetFT.Lib.Ledger — accounting for a queue that drops its oldest entries.

Everything that was pushed went through the queue in order, so at any
time the pushed sequence splits into what has left the queue and what is
still in it; what has left was either taken by a reader or dropped.
`Ledger` states that split. It is kept by a push, a drop at the front and
a take at the front, and gives the two facts a user of such a queue
wants: nothing is lost or invented in the counts, and the readers see a
subsequence of what was pushed.
-/
import Mathlib.Data.List.Basic

namespace PyNetFT.Lib

variable {α : Type}

/-- The books of a queue: `pushed` in order of arrival, `taken` in order
of removal by readers, `queued` oldest first. -/
def Ledger (pushed taken queued : List α) (dropped : Nat) : Prop :=
  ∃ removed, pushed = removed ++ queued ∧ taken.Sublist removed ∧
    removed.length = taken.length + dropped

namespace Ledger

variable {pushed taken queued : List α} {dropped : Nat} {x : α}

theorem empty : Ledger ([] : List α) [] [] 0 := ⟨[], rfl, .slnil, rfl⟩

theorem push (h : Ledger pushed taken queued dropped) (x : α) :
    Ledger (pushed ++ [x]) taken (queued ++ [x]) dropped := by
  obtain ⟨removed, rfl, htaken, hlength⟩ := h
  exact ⟨removed, List.append_assoc _ _ _, htaken, hlength⟩

theorem drop (h : Ledger pushed taken (x :: queued) dropped) :
    Ledger pushed taken queued (dropped + 1) := by
  obtain ⟨removed, rfl, htaken, hlength⟩ := h
  refine ⟨removed ++ [x], by simp, htaken.trans (List.sublist_append_left _ _), ?_⟩
  rw [List.length_append, hlength]
  rfl

theorem take (h : Ledger pushed taken (x :: queued) dropped) :
    Ledger pushed (taken ++ [x]) queued dropped := by
  obtain ⟨removed, rfl, htaken, hlength⟩ := h
  refine ⟨removed ++ [x], by simp, htaken.append (List.Sublist.refl _), ?_⟩
  rw [List.length_append, List.length_append, hlength, List.length_singleton]
  omega

/-- Nothing is lost in the counts. -/
theorem count (h : Ledger pushed taken queued dropped) :
    pushed.length = taken.length + dropped + queued.length := by
  obtain ⟨removed, rfl, -, hlength⟩ := h
  rw [List.length_append, hlength]

/-- The readers see a subsequence of what was pushed. -/
theorem taken_sublist (h : Ledger pushed taken queued dropped) : taken.Sublist pushed := by
  obtain ⟨removed, rfl, htaken, -⟩ := h
  exact htaken.trans (List.sublist_append_left _ _)

/-- Without drops, an empty queue means that the readers have it all. -/
theorem taken_eq (h : Ledger pushed taken [] 0) : taken = pushed := by
  obtain ⟨removed, rfl, htaken, hlength⟩ := h
  rw [List.append_nil]
  exact htaken.eq_of_length hlength.symm

end Ledger

end PyNetFT.Lib
