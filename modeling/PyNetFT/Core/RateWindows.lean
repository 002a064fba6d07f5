/-
PyNetFT.Core.RateWindows — the reported rates are window counts.

`health()` and `handle_record` prune the same two queues with different
notions of now, and a record may be added that is older than the last
pruning. Because the clock does not go back, nothing that either of them
removes can still be in a window that is asked for later
(`RecordsWf.tracked`), so the sizes `health()` reports are exact.
-/
import PyNetFT.Core.Records

namespace PyNetFT.Core

open PyNetFT.Lib PyNetFT.Lib.SlidingWindow

/-- Received at most one second before `now`. -/
def inWindow (now receivedAt : TimePoint) : Bool := decide (now ≤ receivedAt + ticksPerSecond)

/-- The rates of a snapshot count the window at the clock reading of the
call. -/
theorem RecordsWf.snapshot_rates {s : Sys} {h : RecordHistory} (hr : RecordsWf s h) :
    s.shared.snapshot.2.receiveRateHz = h.current.entered.countP (inWindow s.shared.clock) ∧
      s.shared.snapshot.2.deliveryRateHz
        = h.current.delivered.countP (inWindow s.shared.clock) :=
  ⟨hr.tracked.received.length_prune, hr.tracked.delivered.length_prune⟩

/-- **The rates of `health()` are exact window counts.** In every run,
whatever was pruned before: the queues still hold every entry of the
current run that is in the window, and a `health()` call that takes its
snapshot reports the number of records of the current run that have
entered, and of its delivered samples, that were received at most one
second before the clock reading of the call. -/
theorem health_rates_exact (P : Platform) (config : Config) {s : Sys} {h : RecordHistory}
    (hreach : (recordLts P config).Reachable (s, h)) :
    s.shared.receiveTimes.filter (inWindow s.shared.clock)
        = h.current.entered.filter (inWindow s.shared.clock) ∧
      s.shared.deliveryTimes.filter (inWindow s.shared.clock)
        = h.current.delivered.filter (inWindow s.shared.clock) ∧
      ∀ c caller op choice t snapshot, s.calls c = some ⟨caller, op, .healthEnter⟩ →
        s.step P config (.call c choice) = some t →
        t.calls c = some ⟨caller, op, .returned (.snapshot snapshot)⟩ →
        snapshot.receiveRateHz = h.current.entered.countP (inWindow s.shared.clock) ∧
          snapshot.deliveryRateHz = h.current.delivered.countP (inWindow s.shared.clock) := by
  have hr : RecordsWf s h := recordsWf_of_reach hreach
  refine ⟨hr.tracked.received.window_kept, hr.tracked.delivered.window_kept, ?_⟩
  intro c caller op choice t snapshot hc hstep ht
  rw [health_step hc choice] at hstep
  cases hstep
  rw [Sys.setCall_calls_self] at ht
  cases ht
  exact hr.snapshot_rates

/-- A `health()` half a second after the only record of the run, and what
the next one says a second later. -/
def twoSnapshots : List Label :=
  [.tick 500000000, .invoke 1 none .health, .call 1 .go, .tick 1000000000,
   .invoke 2 none .health]

/-- The first of them says one record received and one delivered. -/
def saysOneEach : Option Call → Bool
  | some ⟨none, .health, .returned (.snapshot earlier)⟩ =>
      decide (earlier.receiveRateHz = 1 ∧ earlier.deliveryRateHz = 1)
  | _ => false

theorem overrideRecords_reachable : (recordLts exactPlatform overrideConfig).Reachable
    (Sys.new overrideConfig 1000, {}) :=
  Lts.Reachable.init ⟨⟨1000, overrideConfig_valid, rfl⟩, rfl⟩

theorem health_rates_exact_streamed :
    ∃ s h t snapshot, (recordLts exactPlatform overrideConfig).Reachable (s, h) ∧
      (∃ earlier, s.calls 1 = some ⟨none, .health, .returned (.snapshot earlier)⟩ ∧
        earlier.receiveRateHz = 1 ∧ earlier.deliveryRateHz = 1) ∧
      s.step exactPlatform overrideConfig (.call 2 .go) = some t ∧
      t.calls 2 = some ⟨none, .health, .returned (.snapshot snapshot)⟩ ∧
      h.current = ⟨[1000], [1000]⟩ ∧ snapshot.receiveRateHz = 0 ∧ snapshot.deliveryRateHz = 0 := by
  obtain ⟨⟨s, h⟩, hs, hp⟩ := Lts.exists_of_exec (l := streamingRun ++ twoSnapshots)
    (p := fun p : Sys × RecordHistory => decide (
      p.1.calls 2 = some ⟨none, .health, .healthEnter⟩ ∧ p.2.current = ⟨[1000], [1000]⟩ ∧
      p.1.shared.clock = 1500001000) && saysOneEach (p.1.calls 1))
    overrideRecords_reachable (by decide +kernel)
  obtain ⟨hplace, hearlier⟩ := Bool.and_eq_true_iff.mp hp
  obtain ⟨hc, hcurrent, hclock⟩ := of_decide_eq_true hplace
  dsimp only at hc hcurrent hclock
  unfold saysOneEach at hearlier
  split at hearlier
  · rename_i earlier hreturned
    obtain ⟨hreceive, hdeliver⟩ := (health_rates_exact exactPlatform overrideConfig hs).2.2 2 _ _
      .go _ _ hc (health_step hc .go) (Sys.setCall_calls_self _ _ _)
    rw [hcurrent, hclock] at hreceive hdeliver
    exact ⟨s, h, _, _, hs, ⟨earlier, hreturned, of_decide_eq_true hearlier⟩, health_step hc .go,
      Sys.setCall_calls_self _ _ _, hcurrent, hreceive, hdeliver⟩
  · cases hearlier

end PyNetFT.Core
