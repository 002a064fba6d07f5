/-
PyNetFT.Lib.Mealy — machines that answer every input and move on.

A Mealy machine is a function `step : σ → ι → ο × σ`; it is run over a
list of inputs from a given state. `final` is the state after the
inputs, `outputs` the answers in order.

`final_invariant` is the induction rule: an invariant that may mention
the inputs consumed so far holds after every prefix, when each single
input keeps it. The step hypothesis knows which prefix it stands behind,
so conditions on the whole input list can be used there.
-/
import Mathlib.Data.List.Induction

namespace PyNetFT.Lib.Mealy

variable {σ ι ο : Type} (step : σ → ι → ο × σ)

/-- The state after a list of inputs. -/
def final : σ → List ι → σ
  | s, [] => s
  | s, x :: xs => final (step s x).2 xs

/-- The answers to a list of inputs. -/
def outputs : σ → List ι → List ο
  | _, [] => []
  | s, x :: xs => (step s x).1 :: outputs (step s x).2 xs

@[simp] theorem final_nil (s : σ) : final step s [] = s := rfl

@[simp] theorem outputs_nil (s : σ) : outputs step s [] = [] := rfl

theorem final_append (s : σ) (xs ys : List ι) :
    final step s (xs ++ ys) = final step (final step s xs) ys := by
  induction xs generalizing s with
  | nil => rfl
  | cons x xs ih => exact ih (step s x).2

theorem outputs_append (s : σ) (xs ys : List ι) :
    outputs step s (xs ++ ys) = outputs step s xs ++ outputs step (final step s xs) ys := by
  induction xs generalizing s with
  | nil => rfl
  | cons x xs ih => exact congrArg ((step s x).1 :: ·) (ih (step s x).2)

theorem final_concat (s : σ) (xs : List ι) (x : ι) :
    final step s (xs ++ [x]) = (step (final step s xs) x).2 := by
  rw [final_append]
  rfl

theorem outputs_concat (s : σ) (xs : List ι) (x : ι) :
    outputs step s (xs ++ [x]) = outputs step s xs ++ [(step (final step s xs) x).1] := by
  rw [outputs_append]
  rfl

theorem length_outputs (s : σ) (xs : List ι) : (outputs step s xs).length = xs.length := by
  induction xs generalizing s with
  | nil => rfl
  | cons x xs ih => exact congrArg (· + 1) (ih (step s x).2)

/-- The answer to one input depends on the inputs before it. -/
theorem outputs_getElem? (s : σ) (xs : List ι) (k : Nat) :
    (outputs step s xs)[k]? = xs[k]?.map fun x => (step (final step s (xs.take k)) x).1 := by
  induction xs generalizing s k with
  | nil => rfl
  | cons x xs ih =>
    cases k with
    | zero => rfl
    | succ k => exact ih (step s x).2 k

theorem answer_mem_outputs (s : σ) (before : List ι) (x : ι) (after : List ι) :
    (step (final step s before) x).1 ∈ outputs step s (before ++ x :: after) := by
  rw [outputs_append]
  exact List.mem_append_right _ (List.mem_cons_self ..)

/-- A fact about the inputs consumed, the answers given and the state
holds after every prefix if it holds at first and each input keeps it. -/
theorem final_invariant {K : List ι → List ο → σ → Prop} {s : σ} (xs : List ι)
    (hinit : K [] [] s)
    (hstep : ∀ before x after, xs = before ++ x :: after →
      K before (outputs step s before) (final step s before) →
      K (before ++ [x])
        (outputs step s before ++ [(step (final step s before) x).1])
        (step (final step s before) x).2) :
    ∀ before after, xs = before ++ after →
      K before (outputs step s before) (final step s before) := by
  intro before
  induction before using List.reverseRecOn with
  | nil =>
    intro after _
    exact hinit
  | append_singleton before x ih =>
    intro after hxs
    rw [List.append_assoc] at hxs
    rw [outputs_concat, final_concat]
    exact hstep before x after hxs (ih (x :: after) hxs)

end PyNetFT.Lib.Mealy
