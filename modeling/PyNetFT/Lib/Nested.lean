/-
PyNetFT.Lib.Nested — properly nested words.

A word of brackets and leaves is properly nested when it is the
flattening of a forest whose opening and closing brackets fit each other.
`balance` is the usual machine with a stack of open brackets; it accepts
exactly the nested words (`balance_eq_nil_iff`). What fits what is a
parameter.
-/
import Mathlib.Logic.Basic

namespace PyNetFT.Lib

/-- A letter of a word over opening brackets `α`, closing brackets `β`
and leaves `γ`. -/
inductive Bracket (α β γ : Type) where
  | leaf (leaf : γ)
  | opening (bracket : α)
  | closing (bracket : β)
  deriving DecidableEq

/-- A forest, by its first tree and the rest. -/
inductive Forest (α β γ : Type) where
  | nil
  | leaf (leaf : γ) (rest : Forest α β γ)
  | node (first : α) (children : Forest α β γ) (last : β) (rest : Forest α β γ)
  deriving DecidableEq

variable {α β γ : Type}

def Forest.flatten : Forest α β γ → List (Bracket α β γ)
  | .nil => []
  | .leaf l rest => .leaf l :: rest.flatten
  | .node a children b rest =>
      .opening a :: (children.flatten ++ .closing b :: rest.flatten)

/-- Every closing bracket fits its opening one. -/
def Forest.Matched (fits : α → β → Prop) : Forest α β γ → Prop
  | .nil => True
  | .leaf _ rest => rest.Matched fits
  | .node a children b rest => fits a b ∧ children.Matched fits ∧ rest.Matched fits

section Reading

variable {fits : α → β → Prop}

/-- What an accepting run reads with `stack` open: a forest, the bracket
that closes the innermost, a forest, and so on. -/
inductive Closes (fits : α → β → Prop) : List α → List (Bracket α β γ) → Prop where
  | done {f : Forest α β γ} (matched : f.Matched fits) : Closes fits [] f.flatten
  | close {f : Forest α β γ} {a : α} {b : β} {stack : List α} {word : List (Bracket α β γ)}
      (matched : f.Matched fits) (fit : fits a b) (rest : Closes fits stack word) :
      Closes fits (a :: stack) (f.flatten ++ .closing b :: word)

theorem Closes.leaf {stack : List α} {word : List (Bracket α β γ)} (h : Closes fits stack word)
    (l : γ) : Closes fits stack (.leaf l :: word) := by
  cases h with
  | done matched => exact .done (f := .leaf l _) matched
  | close matched fit rest => exact .close (f := .leaf l _) matched fit rest

/-- The bracket opened last and closed first makes a tree. -/
theorem Closes.opening {stack : List α} {word : List (Bracket α β γ)} {a : α}
    (h : Closes fits (a :: stack) word) : Closes fits stack (.opening a :: word) := by
  cases h with
  | @close f _ b _ word matched fit rest =>
    cases rest with
    | @done g hg => exact .done (f := .node a f b g) ⟨fit, matched, hg⟩
    | @close g c d stack word hg hfit hrest =>
      have hword :
          Bracket.opening a :: (f.flatten ++ .closing b :: (g.flatten ++ .closing d :: word))
          = (Forest.node a f b g).flatten ++ .closing d :: word := by
        simp [Forest.flatten]
      rw [hword]
      exact .close (f := .node a f b g) ⟨fit, matched, hg⟩ hfit hrest

end Reading

section Machine

variable (fits : α → β → Prop) [DecidableRel fits]

/-- The machine: the open brackets after a word, the innermost first. -/
def balance : List α → List (Bracket α β γ) → Option (List α)
  | stack, [] => some stack
  | stack, .leaf _ :: word => balance stack word
  | stack, .opening a :: word => balance (a :: stack) word
  | [], .closing _ :: _ => none
  | a :: stack, .closing b :: word => if fits a b then balance stack word else none

/-- A forest leaves the stack as it was. -/
theorem balance_flatten {f : Forest α β γ} (h : f.Matched fits) (stack : List α)
    (word : List (Bracket α β γ)) :
    balance fits stack (f.flatten ++ word) = balance fits stack word := by
  induction f generalizing stack word with
  | nil => rfl
  | leaf l rest ih =>
    simp only [Forest.flatten, List.cons_append, balance]
    exact ih h stack word
  | node a children b rest ihChildren ihRest =>
    obtain ⟨hfits, hchildren, hrest⟩ := h
    simp only [Forest.flatten, List.cons_append, List.append_assoc, balance]
    rw [ihChildren hchildren]
    simp only [balance, if_pos hfits]
    exact ihRest hrest stack word

variable {fits} in
theorem closes_of_balance {stack : List α} {word : List (Bracket α β γ)}
    (h : balance fits stack word = some []) : Closes fits stack word := by
  induction word generalizing stack with
  | nil =>
    cases h
    exact .done (f := .nil) trivial
  | cons letter word ih =>
    cases letter with
    | leaf l => exact (ih h).leaf l
    | opening a => exact (ih h).opening
    | closing b =>
      cases stack with
      | nil => cases h
      | cons a stack =>
        simp only [balance] at h
        split at h
        · rename_i hfits
          exact .close (f := .nil) trivial hfits (ih h)
        · cases h

/-- The machine accepts the properly nested words. -/
theorem balance_eq_nil_iff (word : List (Bracket α β γ)) :
    balance fits [] word = some [] ↔ ∃ f : Forest α β γ, f.Matched fits ∧ f.flatten = word := by
  constructor
  · intro h
    cases closes_of_balance h with
    | done matched => exact ⟨_, matched, rfl⟩
  · rintro ⟨f, hf, rfl⟩
    have hrun := balance_flatten fits hf [] []
    rw [List.append_nil] at hrun
    exact hrun

end Machine

end PyNetFT.Lib
