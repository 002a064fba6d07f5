/-
PyNetFT.Lib.Lts — labelled transition systems with an executable step.

A system is an initial predicate and a PARTIAL step function: a label
names who moves and what the environment answers, and a step that is
not enabled is `none`. Determinism per label is what makes a concrete
interleaving a list of labels that the kernel can run.

* `Lts.Reach ok` — the states reached by steps that all satisfy `ok`;
  `Lts.Reachable` is the unrestricted case.
* `Lts.Path ok` — a run between two given states.
* `Reach.invariant` / `Reach.invariant_using` — the two induction rules
  every invariant of this development is proved with. The second may
  assume facts already established for reachable states.
* `Path.preserves` — the rule for "from here on, as long as no step of
  a given kind is taken".
* `Path.counts` — the rule for "after so many of its own steps".
* `recorded` — the system with a history variable beside its state; it
  has the same runs.
* `Simulation` — every step of one system is matched by a short run of
  another under a state map; reachability transfers.
-/
import Mathlib.Data.Set.Basic

namespace PyNetFT.Lib

/-- A labelled transition system with a partial, executable step. -/
structure Lts (σ ℓ : Type) where
  init : σ → Prop
  step : σ → ℓ → Option σ

namespace Lts

variable {σ ℓ τ κ : Type}

/-- States reached from an initial one by steps that all satisfy `ok`. -/
inductive Reach (L : Lts σ ℓ) (ok : σ → ℓ → Prop) : σ → Prop where
  | init {s : σ} : L.init s → Reach L ok s
  | step {s t : σ} {l : ℓ} :
      Reach L ok s → ok s l → L.step s l = some t → Reach L ok t

/-- Every state of every run. -/
def Reachable (L : Lts σ ℓ) : σ → Prop := Reach L (fun _ _ => True)

/-- A run from `s` to `t` with its labels, all steps satisfying `ok`. -/
inductive Path (L : Lts σ ℓ) (ok : σ → ℓ → Prop) : σ → List ℓ → σ → Prop where
  | nil (s : σ) : Path L ok s [] s
  | cons {s t u : σ} {l : ℓ} {ls : List ℓ} :
      ok s l → L.step s l = some t → Path L ok t ls u → Path L ok s (l :: ls) u

/-- Run a list of labels. -/
def exec (L : Lts σ ℓ) : σ → List ℓ → Option σ
  | s, [] => some s
  | s, l :: ls => (L.step s l).bind (exec L · ls)

/-- Run a list of labels whose steps all pass a check. -/
def execChecked (L : Lts σ ℓ) (check : σ → ℓ → Bool) : σ → List ℓ → Option σ
  | s, [] => some s
  | s, l :: ls => if check s l then (L.step s l).bind (execChecked L check · ls) else none

section Rules

variable {L : Lts σ ℓ} {ok : σ → ℓ → Prop}

theorem Reachable.init {s : σ} (h : L.init s) : L.Reachable s := Reach.init h

theorem Reachable.step {s t : σ} {l : ℓ} (hs : L.Reachable s)
    (h : L.step s l = some t) : L.Reachable t :=
  Reach.step hs trivial h

/-- A restricted run is a run. -/
theorem Reach.reachable {s : σ} (h : L.Reach ok s) : L.Reachable s := by
  induction h with
  | init h => exact Reachable.init h
  | step _ _ hstep ih => exact ih.step hstep

/-- The basic rule: initially, and kept by every admitted step. -/
theorem Reach.invariant {I : σ → Prop} (hinit : ∀ s, L.init s → I s)
    (hstep : ∀ s l t, ok s l → L.step s l = some t → I s → I t)
    {s : σ} (h : L.Reach ok s) : I s := by
  induction h with
  | init h => exact hinit _ h
  | step _ hok hstep' ih => exact hstep _ _ _ hok hstep' ih

/-- The relative rule: the step may use what is already known of the
reached states on both sides. -/
theorem Reach.invariant_using {K I : σ → Prop} (hK : ∀ s, L.Reach ok s → K s)
    (hinit : ∀ s, L.init s → I s)
    (hstep : ∀ s l t, ok s l → L.step s l = some t → K s → K t → I s → I t)
    {s : σ} (h : L.Reach ok s) : I s := by
  induction h with
  | init h => exact hinit _ h
  | step hs hok hstep' ih =>
    exact hstep _ _ _ hok hstep' (hK _ hs) (hK _ (hs.step hok hstep')) ih

theorem Path.reachable {s t : σ} {ls : List ℓ} (hp : L.Path ok s ls t)
    (hs : L.Reachable s) : L.Reachable t := by
  induction hp with
  | nil => exact hs
  | cons _ hstep _ ih => exact ih (hs.step hstep)

theorem Path.reach {s t : σ} {ls : List ℓ} (hp : L.Path ok s ls t) (hs : L.Reach ok s) :
    L.Reach ok t := by
  induction hp with
  | nil => exact hs
  | cons hok hstep _ ih => exact ih (hs.step hok hstep)

/-- From a reachable state, a property kept by every admitted step holds
at the end of every admitted run. -/
theorem Path.preserves {K I : σ → Prop} (hK : ∀ s, L.Reachable s → K s)
    (hstep : ∀ s l t, ok s l → L.step s l = some t → K s → K t → I s → I t)
    {s t : σ} {ls : List ℓ} (hp : L.Path ok s ls t) (hs : L.Reachable s)
    (hI : I s) : I t := by
  induction hp with
  | nil => exact hI
  | cons hok hstep' _ ih =>
    have ht := hs.step hstep'
    exact ih ht (hstep _ _ _ hok hstep' (hK _ hs) (hK _ ht) hI)

/-- The response rule: `I n` says how far a party is after `n` of its own
steps. Its own steps move it on by one, all others leave it there. -/
theorem Path.counts {K : σ → Prop} {I : Nat → σ → Prop} {admitted : σ → ℓ → Prop}
    (own : ℓ → Bool) (hadmitted : ∀ s l, ok s l → admitted s l) (hK : ∀ s, L.Reach admitted s → K s)
    (hown : ∀ n s l t, ok s l → L.step s l = some t → K s → own l = true → I n s → I (n + 1) t)
    (hother : ∀ n s l t, ok s l → L.step s l = some t → K s → own l = false → I n s → I n t)
    {s t : σ} {ls : List ℓ} (hp : L.Path ok s ls t) (hs : L.Reach admitted s) {n : Nat}
    (hI : I n s) : I (n + ls.countP own) t := by
  induction hp generalizing n with
  | nil => exact hI
  | @cons s u t l ls hok hstep _ ih =>
    have hu := hs.step (hadmitted _ _ hok) hstep
    cases hmine : own l with
    | true =>
      have hnext := ih hu (hown n _ _ _ hok hstep (hK _ hs) hmine hI)
      rwa [List.countP_cons_of_pos hmine, Nat.add_comm (List.countP _ _) 1, ← Nat.add_assoc]
    | false =>
      have hnext := ih hu (hother n _ _ _ hok hstep (hK _ hs) hmine hI)
      rwa [List.countP_cons_of_neg (by simp [hmine])]

theorem exec_reachable {ls : List ℓ} {s t : σ} (hs : L.Reachable s)
    (h : L.exec s ls = some t) : L.Reachable t := by
  induction ls generalizing s with
  | nil =>
    simp only [exec, Option.some.injEq] at h
    exact h ▸ hs
  | cons l ls ih =>
    simp only [exec, Option.bind_eq_some_iff] at h
    obtain ⟨u, hu, hrest⟩ := h
    exact ih (hs.step hu) hrest

/-- A concrete schedule ending in a state with a decidable property. -/
theorem exists_of_exec {l : List ℓ} {s : σ} {p : σ → Bool} (hs : L.Reachable s)
    (h : (L.exec s l).map p = some true) : ∃ t, L.Reachable t ∧ p t = true := by
  simp only [Option.map_eq_some_iff] at h
  obtain ⟨t, ht, hp⟩ := h
  exact ⟨t, exec_reachable hs ht, hp⟩

/-- A concrete schedule of admitted steps, likewise. -/
theorem exists_of_execChecked {l : List ℓ} {s : σ} {p : σ → Bool} (check : σ → ℓ → Bool)
    (hcheck : ∀ s l, check s l = true → ok s l) (hs : L.Reach ok s)
    (h : (L.execChecked check s l).map p = some true) : ∃ t, L.Reach ok t ∧ p t = true := by
  induction l generalizing s with
  | nil => exact ⟨s, hs, Option.some.inj h⟩
  | cons l ls ih =>
    unfold execChecked at h
    split at h
    · rename_i hpass
      cases hstep : L.step s l with
      | none =>
        rw [hstep] at h
        cases h
      | some u =>
        rw [hstep] at h
        exact ih (hs.step (hcheck _ _ hpass) hstep) h
    · cases h

/-- A concrete schedule of admitted steps is a run. -/
theorem path_of_execChecked {l : List ℓ} {s t : σ} (check : σ → ℓ → Bool)
    (hcheck : ∀ s l, check s l = true → ok s l) (h : L.execChecked check s l = some t) :
    L.Path ok s l t := by
  induction l generalizing s with
  | nil =>
    cases h
    exact .nil _
  | cons l ls ih =>
    unfold execChecked at h
    split at h
    · rename_i hpass
      obtain ⟨u, hu, hrest⟩ := Option.bind_eq_some_iff.mp h
      exact .cons (hcheck _ _ hpass) hu (ih hrest)
    · cases h

/-- A concrete schedule with a step in it that matters: any steps before
it, admitted steps behind it. -/
theorem exists_of_stages {s : σ} (hs : L.Reachable s) (check : σ → ℓ → Bool)
    (hcheck : ∀ s l, check s l = true → ok s l) (first : List ℓ) (l : ℓ) (rest : List ℓ)
    (p : σ → σ → Bool)
    (h : ((L.exec s first).bind fun t =>
      (L.step t l).bind fun u => (L.execChecked check u rest).map (p t)) = some true) :
    ∃ t u v, L.Reachable t ∧ L.step t l = some u ∧ L.Path ok u rest v ∧ p t v = true := by
  obtain ⟨t, ht, h⟩ := Option.bind_eq_some_iff.mp h
  obtain ⟨u, hu, h⟩ := Option.bind_eq_some_iff.mp h
  obtain ⟨v, hv, hp⟩ := Option.map_eq_some_iff.mp h
  exact ⟨t, u, v, exec_reachable hs ht, hu, path_of_execChecked check hcheck hv, hp⟩

/-- Likewise, behind a schedule whose steps were admitted one by one. -/
theorem exists_of_exec_checked {first l : List ℓ} {s : σ} {p : σ → Bool} (check : σ → ℓ → Bool)
    (hcheck : ∀ s l, check s l = true → ok s l)
    (hfirst : ∃ t, L.Reach ok t ∧ L.exec s first = some t)
    (h : ((L.exec s first).bind fun t => (L.execChecked check t l).map p) = some true) :
    ∃ t, L.Reach ok t ∧ p t = true := by
  obtain ⟨t, ht, hexec⟩ := hfirst
  rw [hexec] at h
  exact exists_of_execChecked check hcheck ht h

end Rules

/-! ## History variables -/

section Recorded

variable {η : Type}

/-- The system with a history variable beside its state: `record` says
how a step goes into the history. -/
def recorded (L : Lts σ ℓ) (h₀ : η) (record : η → σ → ℓ → σ → η) : Lts (σ × η) ℓ where
  init p := L.init p.1 ∧ p.2 = h₀
  step p l := (L.step p.1 l).map fun t => (t, record p.2 p.1 l t)

variable {L : Lts σ ℓ} {h₀ : η} {record : η → σ → ℓ → σ → η} {ok : σ × η → ℓ → Prop}

theorem recorded_step {p q : σ × η} {l : ℓ} (h : (L.recorded h₀ record).step p l = some q) :
    L.step p.1 l = some q.1 ∧ q.2 = record p.2 p.1 l q.1 := by
  obtain ⟨t, ht, rfl⟩ := Option.map_eq_some_iff.mp h
  exact ⟨ht, rfl⟩

/-- The history does not restrict the runs. -/
theorem Reachable.recorded {s : σ} (h : L.Reachable s) :
    ∃ history, (L.recorded h₀ record).Reachable (s, history) := by
  refine Reach.invariant (I := fun s => ∃ history, (L.recorded h₀ record).Reachable (s, history))
    (fun s hs => ⟨h₀, Reachable.init ⟨hs, rfl⟩⟩) ?_ h
  rintro s l t - hstep ⟨history, hs⟩
  exact ⟨record history s l t, hs.step (l := l) (by simp [Lts.recorded, hstep])⟩

theorem Reach.unrecorded {p : σ × η} (h : (L.recorded h₀ record).Reach ok p) :
    L.Reachable p.1 := by
  refine Reach.invariant (I := fun p => L.Reachable p.1) ?_ ?_ h
  · intro p hp
    exact Reachable.init hp.1
  · intro p l q _ hstep hp
    exact hp.step (recorded_step hstep).1

/-- The induction rule for state and history together. -/
theorem Reach.recorded_invariant {I : σ → η → Prop} (hinit : ∀ s, L.init s → I s h₀)
    (hstep : ∀ s history l t, ok (s, history) l → L.Reachable s → L.step s l = some t →
      I s history → I t (record history s l t))
    {p : σ × η} (h : (L.recorded h₀ record).Reach ok p) : I p.1 p.2 := by
  refine Reach.invariant_using (K := fun p => L.Reachable p.1) (I := fun p => I p.1 p.2)
    (fun p hp => hp.unrecorded) ?_ ?_ h
  · rintro ⟨s, history⟩ ⟨hs, rfl⟩
    exact hinit s hs
  · rintro ⟨s, history⟩ l ⟨t, history'⟩ hok hst hs _ hI
    obtain ⟨ht, hrecord⟩ := recorded_step hst
    exact hrecord.symm ▸ hstep s history l t hok hs ht hI

end Recorded

/-- Every step of `L` is a finite run of `M` under the state map `f`. -/
structure Simulation (L : Lts σ ℓ) (M : Lts τ κ) (f : σ → τ) : Prop where
  init : ∀ s, L.init s → M.init (f s)
  step : ∀ s l t, L.step s l = some t → ∃ ks, M.exec (f s) ks = some (f t)

/-- What is reachable above projects to what is reachable below. -/
theorem Simulation.reachable {L : Lts σ ℓ} {M : Lts τ κ} {f : σ → τ}
    (sim : Simulation L M f) {s : σ} (h : L.Reachable s) : M.Reachable (f s) := by
  refine Reach.invariant (I := fun s => M.Reachable (f s)) ?_ ?_ h
  · exact fun s hs => Reachable.init (sim.init s hs)
  · intro s l t _ hstep hs
    obtain ⟨ks, hks⟩ := sim.step s l t hstep
    exact exec_reachable hs hks

end Lts

end PyNetFT.Lib
