/-
PyNetFT.Core.MalformedStorms — whose malformed datagrams end a session.

`consecutive_malformed_` is a member that outlives sessions: it is
cleared by a valid record and by `start`, not by a new session. So the
streak that ends a session may have begun in an earlier one. The history
splits it: what the session found when it began, and what it received
itself since its beginning or its last valid record. A storm is the
session's own exactly if it found nothing (`storm_own_iff_fresh`).
-/
import PyNetFT.Core.Receptions

namespace PyNetFT.Core

open PyNetFT.Lib

/-! ## The history -/

/-- The streak of malformed datagrams: carried into the session, and
received in it. -/
structure StreakHistory where
  carried : Nat := 0
  own : Nat := 0
  deriving DecidableEq

def StreakHistory.atWorker (h : StreakHistory) (s : Shared) : WorkerPc → StreakHistory
  | .sessionBegin => ⟨s.consecutiveMalformed, 0⟩
  | .malformed _ => { h with own := h.own + 1 }
  | .validRecord _ _ => ⟨0, 0⟩
  | _ => h

def StreakHistory.record (h : StreakHistory) (s : Sys) (l : Label) (_ : Sys) : StreakHistory :=
  match l with
  | .worker w _ => ((s.workers w).map fun t => h.atWorker s.shared t.pc).getD h
  | _ => h

/-- The client with that history. -/
def streakLts (P : Platform) (config : Config) : Lts (Sys × StreakHistory) Label :=
  (clientLts P config).recorded {} StreakHistory.record

/-- Every session begins with `consecutive_malformed_` cleared. -/
def FreshStreak (p : Sys × StreakHistory) (l : Label) : Prop :=
  ∀ w choice t, l = .worker w choice → p.1.workers w = some t → t.pc = .sessionBegin →
    p.1.shared.consecutiveMalformed = 0

section System

variable {P : Platform} {config : Config} {s s' : Sys} {h : StreakHistory}

/-! ## The invariant -/

/-- Inside a session the streak is what was carried in and what came in,
and what came in has not ended the session yet. -/
structure StreakWf (s : Sys) (h : StreakHistory) : Prop where
  streak : ∀ w t, s.workers w = some t → t.pc.stage = .session →
    s.shared.consecutiveMalformed = h.carried + h.own ∧
      (0 < h.own → h.carried + h.own < malformedStormThreshold)
  outcome : ∀ w t, s.workers w = some t → t.pc.OfRecord

theorem StreakHistory.atWorker_streak {pc : WorkerPc} {u : Shared}
    (hstreak : pc = .sessionBegin ∨ u.consecutiveMalformed = h.carried + h.own) :
    pc.streak u.consecutiveMalformed = (h.atWorker u pc).carried + (h.atWorker u pc).own := by
  cases pc
  case sessionBegin => rfl
  case validRecord => rfl
  all_goals
    rcases hstreak with hpc | hstreak
    · cases hpc
    · simp only [WorkerPc.streak, StreakHistory.atWorker, hstreak] <;> omega

theorem StreakWf.step (hs : StreakWf s h) (hwf : s.Wf) (hcounts : s.CountsWf)
    (hrequested : s.StopRequested) {l : Label} (hstep : s.step P config l = some s') :
    StreakWf s' (h.record s l s') := by
  constructor
  · intro w t' ht' hstage
    cases thread_step hwf hcounts hrequested hstep ht' (WorkerPc.running_of_session hstage) with
    | own choice t label ht _ step =>
      subst label
      have hrecord : h.record s (.worker w choice) s' = h.atWorker s.shared t.pc := by
        simp [StreakHistory.record, ht]
      have hsession := workerStep_inSession step hstage
      have hbefore : t.pc = .sessionBegin ∨ s.shared.consecutiveMalformed = h.carried + h.own :=
        hsession.imp_right fun hin => (hs.streak w t ht hin.1).1
      have hsum := StreakHistory.atWorker_streak hbefore
      rw [hrecord, (workerStep_record step).malformed.1]
      refine ⟨hsum, fun hown => ?_⟩
      rw [← hsum]
      rcases hsession with hbegin | ⟨hin, hmalformed⟩
      · rw [hbegin] at hown
        exact absurd hown (lt_irrefl 0)
      · obtain ⟨hstreak, hbound⟩ := hs.streak w t ht hin
        cases hpc : t.pc <;> rw [hpc] at hown hmalformed
        case malformed rx => exact hmalformed rx rfl
        case validRecord => exact absurd hown (lt_irrefl 0)
        case sessionBegin => exact absurd hown (lt_irrefl 0)
        all_goals
          change s.shared.consecutiveMalformed < _
          rw [hstreak]
          exact hbound hown
    | spawned head =>
      rw [head] at hstage
      cases hstage
    | beside t label ht same shared =>
      have hrecord : h.record s l s' = h := by
        cases l with
        | worker v choice => exact absurd rfl (label v choice)
        | _ => rfl
      rw [hrecord, shared.malformed]
      exact hs.streak w t ht (same ▸ hstage)
  · exact fun w t' ht' => ofRecord_of_step hwf hcounts hrequested hs.outcome hstep ht'

theorem streakWf_of_reachable {p : Sys × StreakHistory}
    (hreach : (streakLts P config).Reachable p) : StreakWf p.1 p.2 := by
  refine Lts.Reach.recorded_invariant ?_ ?_ hreach
  · rintro s ⟨clock, -, rfl⟩
    exact ⟨fun _ _ ht => (by cases ht), fun _ _ ht => (by cases ht)⟩
  · intro s h l t _ hs hstep hstreak
    exact hstreak.step (wf_of_reachable hs) (countsWf_of_reachable hs)
      (stopRequested_of_reachable hs) hstep

/-- With fresh sessions nothing is carried. -/
theorem carried_of_freshStreak {p : Sys × StreakHistory}
    (hreach : (streakLts P config).Reach FreshStreak p) : p.2.carried = 0 := by
  refine Lts.Reach.recorded_invariant (I := fun _ h => h.carried = 0) (fun _ _ => rfl) ?_ hreach
  intro s h l t hfresh _ _ hcarried
  cases l with
  | worker w choice =>
    cases ht : s.workers w with
    | none => simpa [StreakHistory.record, ht] using hcarried
    | some u =>
      simp only [StreakHistory.record, ht, Option.map_some, Option.getD_some]
      cases hpc : u.pc
      case sessionBegin => exact hfresh w choice u rfl ht hpc
      case validRecord => rfl
      all_goals exact hcarried
  | _ => exact hcarried

/-- **A storm is a session's own exactly if nothing was carried in.** In
every run, a session that reports `MalformedStorm` has received ten
malformed datagrams itself, with no valid record between them, if and only
if it began with `consecutive_malformed_` cleared or a valid record has
cleared it since. So in a run in which every session begins with the
streak cleared, every storm is the session's own. -/
theorem storm_own_iff_fresh (P : Platform) (config : Config) :
    (∀ s h w choice t, (streakLts P config).Reachable (s, h) →
      s.step P config (.worker w choice) = some t → t.Reports w .malformedStorm →
      (malformedStormThreshold ≤ (h.record s (.worker w choice) t).own ↔
        (h.record s (.worker w choice) t).carried = 0)) ∧
    ∀ s h w choice t, (streakLts P config).Reach FreshStreak (s, h) →
      s.step P config (.worker w choice) = some t → t.Reports w .malformedStorm →
      FreshStreak (s, h) (.worker w choice) →
      malformedStormThreshold ≤ (h.record s (.worker w choice) t).own := by
  have hiff : ∀ s h w choice t, (streakLts P config).Reachable (s, h) →
      s.step P config (.worker w choice) = some t → t.Reports w .malformedStorm →
      (malformedStormThreshold ≤ (h.record s (.worker w choice) t).own ↔
        (h.record s (.worker w choice) t).carried = 0) := by
    rintro s h w choice t hreach hstep ⟨v, outcome, hv, hpc, hresult⟩
    have hs : StreakWf s h := streakWf_of_reachable hreach
    have hclient : (clientLts P config).Reachable s := Lts.Reach.unrecorded hreach
    have hrun : v.pc.phase ≠ .done := by
      rw [hpc]
      exact fun hdone => (by cases hdone)
    cases thread_step (wf_of_reachable hclient) (countsWf_of_reachable hclient)
        (stopRequested_of_reachable hclient) hstep hv hrun with
    | own choice' u label hu _ step =>
      obtain ⟨rx, hmalformed, hstorm⟩ :=
        ((workerStep_result step (hs.outcome w u hu)).2 outcome hpc).1 hresult
      obtain ⟨hstreak, hbound⟩ := hs.streak w u hu (by rw [hmalformed]; rfl)
      simp only [StreakHistory.record, hu, Option.map_some, Option.getD_some, hmalformed,
        StreakHistory.atWorker]
      constructor
      · intro hown
        have hlong : 0 < h.own := by
          have hten : malformedStormThreshold = 10 := rfl
          omega
        have hshort := hbound hlong
        omega
      · intro hcarried
        omega
    | spawned head =>
      rw [head] at hpc
      cases hpc
    | beside _ label => exact absurd rfl (label w choice)
  refine ⟨hiff, fun s h w choice t hreach hstep hstorm hfresh => ?_⟩
  refine (hiff s h w choice t hreach.reachable hstep hstorm).mpr ?_
  exact carried_of_freshStreak (p := (t, h.record s (.worker w choice) t))
    (hreach.step hfresh (by simp [streakLts, Lts.recorded, clientLts, hstep]))

end System

/-! ## Two storms -/

theorem overrideStreaks_reachable : (streakLts exactPlatform overrideConfig).Reachable
    (Sys.new overrideConfig 1000, {}) :=
  Lts.Reachable.init ⟨⟨1000, overrideConfig_valid, rfl⟩, rfl⟩

/-- A session up to its receive loop. -/
def sessionOpens : List Label :=
  [.worker 0 .go, .worker 0 .go, .worker 0 .go, .worker 0 (.http (.failed "")), .worker 0 .go,
   .worker 0 .go, .worker 0 (.connect none), .worker 0 (.send .sent), .worker 0 .go,
   .worker 0 .go]

/-- One datagram of a single byte, up to the section that counts it. -/
def malformedDatagram : List Label :=
  [.worker 0 .go, .worker 0 .go, .worker 0 .go, .worker 0 (.poll (.ready false)), .worker 0 .go,
   .worker 0 (.recv (.datagram [0])), .worker 0 .go]

/-- A first session up to the tenth malformed datagram. -/
def firstStormRun : List Label :=
  [.invoke 0 none (.start (some 7)), .call 0 .go, .call 0 .go, .call 0 .go, .call 0 .go] ++
  sessionOpens ++ (List.replicate 9 (malformedDatagram ++ [.worker 0 .go])).flatten ++
  malformedDatagram

/-- Its storm is its own. -/
theorem storm_own_iff_fresh_first :
    ∃ s h t, (streakLts exactPlatform overrideConfig).Reachable (s, h) ∧
      s.step exactPlatform overrideConfig (.worker 0 .go) = some t ∧ t.Reports 0 .malformedStorm ∧
      malformedStormThreshold ≤ (h.record s (.worker 0 .go) t).own := by
  obtain ⟨⟨s, h⟩, hs, hp⟩ := Lts.exists_of_exec (l := firstStormRun)
    (p := fun p : Sys × StreakHistory =>
      match p.1.step exactPlatform overrideConfig (.worker 0 .go) with
      | some t => decide ((t.workers 0).map (·.pc)
            = some (.sessionDone ⟨.malformedStorm, "", false⟩) ∧
          (p.2.record p.1 (.worker 0 .go) t).carried = 0)
      | none => false) overrideStreaks_reachable (by decide +kernel)
  dsimp only at hp
  split at hp
  · rename_i t hstep
    obtain ⟨hpc, hcarried⟩ := of_decide_eq_true hp
    obtain ⟨v, hv, hpc⟩ := Option.map_eq_some_iff.mp hpc
    have hstorm : t.Reports 0 .malformedStorm := ⟨v, _, hv, hpc, rfl⟩
    exact ⟨s, h, t, hs, hstep, hstorm,
      ((storm_own_iff_fresh exactPlatform overrideConfig).1 s h 0 .go t hs hstep hstorm).mpr
        hcarried⟩
  · cases hp

/-- That session ends, the backoff, and the first malformed datagram of
the second session. -/
def secondStormRun : List Label :=
  firstStormRun ++
  [.worker 0 .go, .worker 0 (.send .sent), .worker 0 .go, .worker 0 .go, .worker 0 .go,
   .tick 250000000, .worker 0 .go] ++
  sessionOpens ++ malformedDatagram

/-- The second session reports a storm of one datagram. -/
theorem storm_of_one :
    overrideConfig.recoveryPolicy = .reconnect ∧
    ∃ s h t, (streakLts exactPlatform overrideConfig).Reachable (s, h) ∧
      s.step exactPlatform overrideConfig (.worker 0 .go) = some t ∧ t.Reports 0 .malformedStorm ∧
      (h.record s (.worker 0 .go) t).own = 1 ∧
      (h.record s (.worker 0 .go) t).carried = malformedStormThreshold := by
  refine ⟨rfl, ?_⟩
  obtain ⟨⟨s, h⟩, hs, hp⟩ := Lts.exists_of_exec (l := secondStormRun)
    (p := fun p : Sys × StreakHistory =>
      match p.1.step exactPlatform overrideConfig (.worker 0 .go) with
      | some t => decide ((t.workers 0).map (·.pc)
            = some (.sessionDone ⟨.malformedStorm, "", false⟩) ∧
          p.2.record p.1 (.worker 0 .go) t = ⟨10, 1⟩)
      | none => false) overrideStreaks_reachable (by decide +kernel)
  dsimp only at hp
  split at hp
  · rename_i t hstep
    obtain ⟨hpc, hrecord⟩ := of_decide_eq_true hp
    obtain ⟨v, hv, hpc⟩ := Option.map_eq_some_iff.mp hpc
    exact ⟨s, h, t, hs, hstep, ⟨v, _, hv, hpc, rfl⟩, by rw [hrecord], by rw [hrecord]; rfl⟩
  · cases hp

end PyNetFT.Core
