/-
PyNetFT.Lib.Counting — bounds between counts over one list.

A list whose entries are put down to one or more reasons: reasons that
exclude each other count at most what they explain, and reasons that
together explain every entry count at least as much.
-/
import Mathlib.Algebra.GroupWithZero.Nat
import Mathlib.Data.List.Basic

namespace PyNetFT.Lib

variable {α : Type}

/-- Two reasons that exclude each other. -/
theorem countP_add_le {p q r : α → Bool} {l : List α} (hp : ∀ a ∈ l, p a = true → r a = true)
    (hq : ∀ a ∈ l, q a = true → r a = true) (hdisjoint : ∀ a ∈ l, p a = true → q a = false) :
    l.countP p + l.countP q ≤ l.countP r := by
  induction l with
  | nil => simp
  | cons a l ih =>
    have htail := ih (fun b hb => hp b (.tail a hb)) (fun b hb => hq b (.tail a hb))
      (fun b hb => hdisjoint b (.tail a hb))
    have ha := hp a (.head l)
    have hqa := hq a (.head l)
    have hd := hdisjoint a (.head l)
    simp only [List.countP_cons]
    cases hpa : p a <;> cases hqa' : q a <;> simp_all <;> omega

/-- Reasons of which every entry has one. -/
theorem countP_le_sum {r : α → Bool} {reasons : List (α → Bool)} {l : List α}
    (h : ∀ a ∈ l, r a = true → ∃ p ∈ reasons, p a = true) :
    l.countP r ≤ (reasons.map fun p => l.countP p).sum := by
  induction reasons generalizing r with
  | nil =>
    refine Nat.le_of_eq (List.countP_eq_zero.mpr fun a ha hr => ?_)
    obtain ⟨p, hp, -⟩ := h a ha hr
    cases hp
  | cons p reasons ih =>
    -- what `p` explains, and what is left for the others
    have hrest := ih (r := fun a => r a && !p a) (by
      intro a ha hr
      obtain ⟨hra, hpa⟩ := Bool.and_eq_true_iff.mp hr
      obtain ⟨q, hq, hqa⟩ := h a ha hra
      rcases List.mem_cons.mp hq with rfl | hq
      · rw [hqa] at hpa
        cases hpa
      · exact ⟨q, hq, hqa⟩)
    have hsplit : l.countP r ≤ l.countP p + l.countP fun a => r a && !p a := by
      clear h hrest ih
      induction l with
      | nil => simp
      | cons a l ih =>
        simp only [List.countP_cons]
        cases r a <;> cases p a <;> simp <;> omega
    rw [List.map_cons, List.sum_cons]
    omega

end PyNetFT.Lib
