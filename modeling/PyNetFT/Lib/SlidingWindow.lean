/-
PyNetFT.Lib.SlidingWindow — a queue of time stamps that is pruned from the
front.

Stamps arrive in order and go to the back; every now and then the front
is cut off up to the first stamp that is at most `span` old. Callers may
prune at different times and may add a stamp that is older than the last
pruning. `Tracks span now all times` says what survives that: `times` is
a final piece of all stamps, and what is missing is too old for every
reading of the clock from `now` on. Then pruning at `now` leaves exactly
the stamps of the last `span` (`Tracks.length_prune`).
-/
import Mathlib.Data.Nat.Basic
import Mathlib.Data.List.TakeWhile

namespace PyNetFT.Lib.SlidingWindow

/-- Cut off the stamps that are more than `span` old. -/
def prune (span : Nat) (times : List Nat) (now : Nat) : List Nat :=
  times.dropWhile fun t => decide (t + span < now)

/-- `times` is what is left of `all`, and nothing that is still in the
window is missing. -/
structure Tracks (span now : Nat) (all times : List Nat) : Prop where
  ordered : all.Pairwise (· ≤ ·)
  past : ∀ t ∈ all, t ≤ now
  suffix : ∃ gone, all = gone ++ times ∧ ∀ t ∈ gone, t + span < now

variable {span now : Nat} {all times : List Nat}

/-- What pruning cuts off is old. -/
theorem prune_eq (span : Nat) (times : List Nat) (now : Nat) :
    ∃ gone, times = gone ++ prune span times now ∧ ∀ t ∈ gone, t + span < now := by
  refine ⟨times.takeWhile fun t => decide (t + span < now),
    List.takeWhile_append_dropWhile.symm, ?_⟩
  intro t ht
  simpa using List.mem_takeWhile_imp ht

theorem prune_cons_of_lt {span t now : Nat} (rest : List Nat) (h : t + span < now) :
    prune span (t :: rest) now = prune span rest now :=
  List.dropWhile_cons_of_pos (decide_eq_true h)

theorem prune_cons_of_not_lt {span t now : Nat} (rest : List Nat) (h : ¬ t + span < now) :
    prune span (t :: rest) now = t :: rest :=
  List.dropWhile_cons_of_neg (by simpa using h)

/-- In an ordered queue, pruning is filtering. -/
theorem prune_eq_filter (h : times.Pairwise (· ≤ ·)) (span now : Nat) :
    prune span times now = times.filter fun t => decide (now ≤ t + span) := by
  induction times with
  | nil => rfl
  | cons t rest ih =>
    rw [List.pairwise_cons] at h
    by_cases hold : t + span < now
    · rw [prune_cons_of_lt rest hold, ih h.2, List.filter_cons_of_neg (by simpa using hold)]
    · have hall : ∀ u ∈ t :: rest, decide (now ≤ u + span) = true := by
        intro u hu
        rcases List.mem_cons.mp hu with rfl | hrest
        · exact decide_eq_true (by omega)
        · have := h.1 u hrest
          exact decide_eq_true (by omega)
      rw [List.filter_eq_self.mpr hall, prune_cons_of_not_lt rest hold]

@[simp] theorem prune_nil (span now : Nat) : prune span [] now = [] := rfl

/-- At the origin of time nothing is old. -/
@[simp] theorem prune_zero (span : Nat) (times : List Nat) : prune span times 0 = times := by
  cases times <;> simp [prune]

/-- Of two prunings the later one counts, in whatever order they come. -/
theorem prune_prune (span : Nat) (times : List Nat) (a b : Nat) :
    prune span (prune span times a) b = prune span times (max a b) := by
  induction times with
  | nil => rfl
  | cons t rest ih =>
    by_cases ha : t + span < a
    · have hmax : t + span < max a b := by omega
      rw [prune_cons_of_lt rest ha, prune_cons_of_lt rest hmax, ih]
    · rw [prune_cons_of_not_lt rest ha]
      by_cases hb : t + span < b
      · have hmax : max a b = b := by omega
        rw [hmax]
      · have hmax : ¬ t + span < max a b := by omega
        rw [prune_cons_of_not_lt rest hb, prune_cons_of_not_lt rest hmax]

theorem Tracks.empty (span now : Nat) : Tracks span now [] [] :=
  ⟨.nil, by simp, [], rfl, by simp⟩

/-- Time goes by. -/
theorem Tracks.later (h : Tracks span now all times) {now' : Nat} (hle : now ≤ now') :
    Tracks span now' all times := by
  obtain ⟨gone, hall, hgone⟩ := h.suffix
  refine ⟨h.ordered, fun t ht => (h.past t ht).trans hle, gone, hall, fun t ht => ?_⟩
  exact (hgone t ht).trans_le hle

/-- Pruning with a reading of the clock that is not in the future. -/
theorem Tracks.prune (h : Tracks span now all times) {instant : Nat} (hle : instant ≤ now) :
    Tracks span now all (prune span times instant) := by
  obtain ⟨gone, hall, hgone⟩ := h.suffix
  obtain ⟨cut, htimes, hcut⟩ := prune_eq span times instant
  refine ⟨h.ordered, h.past, gone ++ cut, ?_, ?_⟩
  · rw [List.append_assoc, ← htimes]
    exact hall
  · intro t ht
    rcases List.mem_append.mp ht with hold | hnew
    · exact hgone t hold
    · exact (hcut t hnew).trans_le hle

/-- A new stamp, not older than those before it. -/
theorem Tracks.push (h : Tracks span now all times) {t : Nat} (hlast : ∀ u ∈ all, u ≤ t)
    (hle : t ≤ now) : Tracks span now (all ++ [t]) (times ++ [t]) := by
  obtain ⟨gone, hall, hgone⟩ := h.suffix
  refine ⟨?_, ?_, gone, ?_, hgone⟩
  · refine List.pairwise_append.mpr ⟨h.ordered, List.pairwise_singleton _ _, ?_⟩
    intro u hu v hv
    rw [List.mem_singleton.mp hv]
    exact hlast u hu
  · intro u hu
    rcases List.mem_append.mp hu with hold | hnew
    · exact h.past u hold
    · rw [List.mem_singleton.mp hnew]
      exact hle
  · rw [hall, List.append_assoc]

/-- What is in the window has not been pruned. -/
theorem Tracks.window_kept (h : Tracks span now all times) :
    (times.filter fun t => decide (now ≤ t + span))
      = all.filter fun t => decide (now ≤ t + span) := by
  obtain ⟨gone, hall, hgone⟩ := h.suffix
  have hempty : (gone.filter fun t => decide (now ≤ t + span)) = [] := by
    rw [List.filter_eq_nil_iff]
    intro t ht
    have := hgone t ht
    simp only [decide_eq_true_eq]
    omega
  rw [hall, List.filter_append, hempty, List.nil_append]

/-- Pruned now, the queue counts the window. -/
theorem Tracks.length_prune (h : Tracks span now all times) :
    (SlidingWindow.prune span times now).length
      = all.countP fun t => decide (now ≤ t + span) := by
  have hordered : times.Pairwise (· ≤ ·) := by
    obtain ⟨gone, hall, -⟩ := h.suffix
    exact (List.pairwise_append.mp (hall ▸ h.ordered)).2.1
  rw [prune_eq_filter hordered, h.window_kept, List.countP_eq_length_filter]

end PyNetFT.Lib.SlidingWindow
