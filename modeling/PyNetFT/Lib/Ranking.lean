/-
PyNetFT.Lib.Ranking — counting the steps of one party by a rank.

`Lts.Path.counts` counts steps from below, to say how far a party has
come. Here they are counted from above: a rank that every step of the
party lowers, and no other step raises, bounds how many steps the party
takes in any run from the present state (`Lts.Path.ranked`).
-/
import PyNetFT.Lib.Lts

namespace PyNetFT.Lib

namespace Lts

variable {σ ℓ : Type} {L : Lts σ ℓ} {ok : σ → ℓ → Prop}

/-- The ranking rule. `I` is what makes the rank go down; `K` is known of
all reachable states. -/
theorem Path.ranked {K I : σ → Prop} (rank : σ → Nat) (own : ℓ → Bool)
    (hK : ∀ s, L.Reachable s → K s)
    (hstep : ∀ s l t, ok s l → L.step s l = some t → K s → I s →
      I t ∧ rank t + (if own l then 1 else 0) ≤ rank s)
    {s t : σ} {ls : List ℓ} (hp : L.Path ok s ls t) (hs : L.Reachable s) (hI : I s) :
    I t ∧ rank t + ls.countP own ≤ rank s := by
  induction hp with
  | nil => exact ⟨hI, by simp⟩
  | @cons s u t l ls hok hstep' _ ih =>
    obtain ⟨hIu, hrank⟩ := hstep _ _ _ hok hstep' (hK _ hs) hI
    obtain ⟨hIt, hrest⟩ := ih (hs.step hstep') hIu
    refine ⟨hIt, ?_⟩
    rw [List.countP_cons]
    omega

end Lts

end PyNetFT.Lib
