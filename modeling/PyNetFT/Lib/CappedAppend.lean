/-
PyNetFT.Lib.CappedAppend — collecting a stream that arrives in chunks, up
to a limit.

A chunk that still fits is appended whole; the first that does not is
refused and ends the collection. What is collected are whole chunks, and
whether the stream was taken depends on its length alone, so every way of
cutting it into chunks ends the same (`collect_of_le`, `collect_of_lt`).
-/
import Mathlib.Data.List.Basic

namespace PyNetFT.Lib

variable {α : Type} {limit : Nat} {body : List α} {chunks : List (List α)}

/-- What is collected, and whether a chunk was refused. -/
def collect (limit : Nat) : List α → List (List α) → List α × Bool
  | body, [] => (body, false)
  | body, chunk :: rest =>
      if body.length + chunk.length ≤ limit then collect limit (body ++ chunk) rest
      else (body, true)

/-- The chunks before the refused one, in order; the refused one did not
fit. -/
theorem collect_accepted (limit : Nat) (body : List α) (chunks : List (List α)) :
    ∃ accepted rest, chunks = accepted ++ rest ∧
      collect limit body chunks = (body ++ accepted.flatten, decide (rest ≠ [])) ∧
      ∀ chunk back, rest = chunk :: back →
        limit < (body ++ accepted.flatten).length + chunk.length := by
  induction chunks generalizing body with
  | nil => exact ⟨[], [], rfl, by simp [collect], fun _ _ h => (by cases h)⟩
  | cons chunk chunks ih =>
    rw [collect]
    split
    · obtain ⟨accepted, rest, hsplit, hcollect, hrefused⟩ := ih (body ++ chunk)
      rw [List.append_assoc, ← List.flatten_cons] at hcollect hrefused
      exact ⟨chunk :: accepted, rest, by rw [hsplit, List.cons_append], hcollect, hrefused⟩
    · rename_i hover
      refine ⟨[], chunk :: chunks, rfl, by simp, fun first back h => ?_⟩
      obtain ⟨rfl, -⟩ := List.cons.inj h
      rw [List.flatten_nil, List.append_nil]
      exact Nat.lt_of_not_le hover

theorem collect_length_le (h : body.length ≤ limit) :
    (collect limit body chunks).1.length ≤ limit := by
  induction chunks generalizing body with
  | nil => exact h
  | cons chunk chunks ih =>
    rw [collect]
    split
    · rename_i hfits
      exact ih (by rw [List.length_append]; exact hfits)
    · exact h

theorem collect_of_le (h : body.length + chunks.flatten.length ≤ limit) :
    collect limit body chunks = (body ++ chunks.flatten, false) := by
  induction chunks generalizing body with
  | nil => rw [collect, List.flatten_nil, List.append_nil]
  | cons chunk chunks ih =>
    rw [List.flatten_cons, List.length_append] at h
    rw [collect, if_pos (by omega), ih (by rw [List.length_append]; omega), List.flatten_cons,
      List.append_assoc]

/-- A stream over the limit is refused in one of its chunks. -/
theorem collect_of_lt (hlimit : body.length ≤ limit)
    (h : limit < body.length + chunks.flatten.length) : (collect limit body chunks).2 = true := by
  obtain ⟨accepted, rest, hsplit, hcollect, -⟩ := collect_accepted limit body chunks
  have hlength : (collect limit body chunks).1.length ≤ limit := collect_length_le hlimit
  rw [hcollect] at hlength ⊢
  refine decide_eq_true ?_
  rintro rfl
  rw [List.append_nil] at hsplit
  rw [List.length_append, ← hsplit] at hlength
  omega

end PyNetFT.Lib
