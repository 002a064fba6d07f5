/-
PyNetFT.Lib.CappedDoubling — waits that double up to a cap and begin again
after a success.

A Mealy machine answers every attempt with a wait: the first wait after a
success, the wait that is due otherwise. Whatever it answers, twice that,
but no more than the cap, is due next. So the wait after an attempt is
`min (first * 2 ^ j) cap`, where `j` is how many attempts the latest
success lies back, or how many there were before (`wait_of_latest`,
`wait_of_none`); waits stay between the first one and the cap, and only a
success makes them shorter (`wait_mem`, `wait_mono`).
-/
import PyNetFT.Lib.Mealy
import Mathlib.Algebra.Order.Ring.Defs
import Mathlib.Algebra.Order.Monoid.Unbundled.Pow
import Mathlib.Tactic.Linarith

namespace PyNetFT.Lib.CappedDoubling

variable {K : Type} [CommRing K] [LinearOrder K]
  {first cap : K} {history : List Bool} {k m : Nat} {wait wait' : K}

def step (first cap due : K) (success : Bool) : K × K :=
  let wait := if success then first else due
  (wait, min (wait * 2) cap)

/-- What is due after a history of attempts. -/
def due (first cap : K) (history : List Bool) : K := Mealy.final (step first cap) first history

/-- The waits after the attempts, in order. -/
def waits (first cap : K) (history : List Bool) : List K :=
  Mealy.outputs (step first cap) first history

/-- The wait after one more attempt. -/
def waitAfter (first cap : K) (before : List Bool) (success : Bool) : K :=
  if success then first else due first cap before

/-- The latest success of a history. -/
def IsLatest (history : List Bool) (m : Nat) : Prop :=
  history[m]? = some true ∧ ∀ i, m < i → history[i]? ≠ some true

theorem waitAfter_true (before : List Bool) : waitAfter first cap before true = first := rfl

theorem waitAfter_false (before : List Bool) :
    waitAfter first cap before false = due first cap before := rfl

theorem length_waits (first cap : K) (history : List Bool) :
    (waits first cap history).length = history.length :=
  Mealy.length_outputs _ _ _

theorem waits_concat (before : List Bool) (success : Bool) :
    waits first cap (before ++ [success])
      = waits first cap before ++ [waitAfter first cap before success] :=
  Mealy.outputs_concat _ _ _ _

theorem due_concat (before : List Bool) (success : Bool) :
    due first cap (before ++ [success]) = min (waitAfter first cap before success * 2) cap :=
  Mealy.final_concat _ _ _ _

theorem waits_getElem? (history : List Bool) (k : Nat) :
    (waits first cap history)[k]?
      = history[k]?.map (waitAfter first cap (history.take k)) :=
  Mealy.outputs_getElem? _ _ _ _

theorem min_zero (hcap : first ≤ cap) : min (first * 2 ^ 0) cap = first := by
  rw [pow_zero, mul_one, min_eq_left hcap]

section Bounds

variable [IsStrictOrderedRing K] (hfirst : 0 ≤ first) (hcap : first ≤ cap)

include hfirst hcap

theorem due_mem (history : List Bool) :
    first ≤ due first cap history ∧ due first cap history ≤ cap := by
  induction history using List.reverseRecOn with
  | nil => exact ⟨le_rfl, hcap⟩
  | append_singleton before success ih =>
    have hlow : first ≤ waitAfter first cap before success := by
      cases success
      · exact ih.1
      · exact le_rfl
    rw [due_concat]
    exact ⟨le_min (by linarith) hcap, min_le_right _ _⟩

theorem waitAfter_mem (before : List Bool) (success : Bool) :
    first ≤ waitAfter first cap before success ∧ waitAfter first cap before success ≤ cap := by
  cases success
  · exact due_mem hfirst hcap before
  · exact ⟨le_rfl, hcap⟩

/-- Doubling what was capped. -/
theorem min_double (j : Nat) :
    min (min (first * 2 ^ j) cap * 2) cap = min (first * 2 ^ (j + 1)) cap := by
  have hpow : first * 2 ^ (j + 1) = first * 2 ^ j * 2 := by rw [pow_succ, mul_assoc]
  rw [hpow]
  rcases le_total (first * 2 ^ j) cap with hle | hge
  · rw [min_eq_left hle]
  · rw [min_eq_right hge, min_eq_right (by linarith), min_eq_right (by linarith)]

/-- The closed form of what is due. -/
theorem due_eq (history : List Bool) :
    (∀ m, IsLatest history m →
      due first cap history = min (first * 2 ^ (history.length - m)) cap) ∧
    (true ∉ history → due first cap history = min (first * 2 ^ history.length) cap) := by
  induction history using List.reverseRecOn with
  | nil => exact ⟨fun m hm => (by cases hm.1), fun _ => (min_zero hcap).symm⟩
  | append_singleton before success ih =>
    rw [due_concat, List.length_append, List.length_singleton]
    refine ⟨fun m hm => ?_, fun hnone => ?_⟩
    · obtain ⟨hsome, hlater⟩ := hm
      have hle : m ≤ before.length := by
        by_contra hgt
        rw [List.getElem?_eq_none (by rw [List.length_append, List.length_singleton]; omega)]
          at hsome
        cases hsome
      cases success with
      | true =>
        -- the last attempt succeeded, so it is the latest success
        have heq : m = before.length := by
          by_contra hne
          exact hlater before.length (by omega) List.getElem?_concat_length
        rw [heq, Nat.add_sub_cancel_left, waitAfter_true, pow_one]
      | false =>
        have hlt : m < before.length := by
          by_contra hge
          obtain rfl : m = before.length := by omega
          rw [List.getElem?_concat_length] at hsome
          cases hsome
        have hlatest : IsLatest before m := by
          refine ⟨by rwa [List.getElem?_append_left hlt] at hsome, fun i hi hin => ?_⟩
          have hi' := (List.getElem?_eq_some_iff.mp hin).1
          exact hlater i hi (by rwa [List.getElem?_append_left hi'])
        rw [waitAfter_false, ih.1 m hlatest, min_double hfirst hcap,
          Nat.sub_add_comm hlt.le]
    · rw [List.mem_append, not_or] at hnone
      cases success with
      | true => exact absurd (List.mem_singleton_self true) hnone.2
      | false => rw [waitAfter_false, ih.2 hnone.1, min_double hfirst hcap]

/-- The wait after the `k`-th attempt, when the `m`-th is the latest that
succeeded. -/
theorem wait_of_latest (hwait : (waits first cap history)[k]? = some wait)
    (hle : m ≤ k) (hsome : history[m]? = some true)
    (hlater : ∀ i, m < i → i ≤ k → history[i]? ≠ some true) :
    wait = min (first * 2 ^ (k - m)) cap := by
  rw [waits_getElem?] at hwait
  obtain ⟨success, hk, rfl⟩ := Option.map_eq_some_iff.mp hwait
  have hlength : (history.take k).length = k :=
    List.length_take_of_le (List.getElem?_eq_some_iff.mp hk).1.le
  cases success with
  | true =>
    have heq : m = k := by
      by_contra hne
      exact hlater k (by omega) le_rfl hk
    rw [heq, Nat.sub_self, min_zero hcap, waitAfter_true]
  | false =>
    have hlt : m < k := by
      refine lt_of_le_of_ne hle ?_
      rintro rfl
      rw [hk] at hsome
      cases hsome
    have hlatest : IsLatest (history.take k) m := by
      refine ⟨by rwa [List.getElem?_take_of_lt hlt], fun i hi hin => ?_⟩
      have hi' : i < k := hlength ▸ (List.getElem?_eq_some_iff.mp hin).1
      exact hlater i hi hi'.le (by rwa [List.getElem?_take_of_lt hi'] at hin)
    rw [waitAfter_false, (due_eq hfirst hcap _).1 m hlatest, hlength]

/-- The same before the first success. -/
theorem wait_of_none (hwait : (waits first cap history)[k]? = some wait)
    (hnone : ∀ i, i ≤ k → history[i]? ≠ some true) : wait = min (first * 2 ^ k) cap := by
  rw [waits_getElem?] at hwait
  obtain ⟨success, hk, rfl⟩ := Option.map_eq_some_iff.mp hwait
  have hlength : (history.take k).length = k :=
    List.length_take_of_le (List.getElem?_eq_some_iff.mp hk).1.le
  cases success with
  | true => exact absurd hk (hnone k le_rfl)
  | false =>
    have hbefore : true ∉ history.take k := by
      intro hin
      obtain ⟨i, hi, heq⟩ := List.getElem_of_mem hin
      have hi' : i < k := hlength ▸ hi
      refine hnone i hi'.le ?_
      rw [← List.getElem?_take_of_lt hi', List.getElem?_eq_getElem hi, heq]
    rw [waitAfter_false, (due_eq hfirst hcap _).2 hbefore, hlength]

theorem wait_mem (hwait : wait ∈ waits first cap history) : first ≤ wait ∧ wait ≤ cap := by
  obtain ⟨k, hk⟩ := List.mem_iff_getElem?.mp hwait
  rw [waits_getElem?] at hk
  obtain ⟨success, -, rfl⟩ := Option.map_eq_some_iff.mp hk
  exact waitAfter_mem hfirst hcap _ success

/-- An attempt without success does not shorten the wait. -/
theorem wait_mono (hwait : (waits first cap history)[k]? = some wait)
    (hwait' : (waits first cap history)[k + 1]? = some wait')
    (hfailed : history[k + 1]? = some false) : wait ≤ wait' := by
  rw [waits_getElem?] at hwait hwait'
  obtain ⟨success, hk, rfl⟩ := Option.map_eq_some_iff.mp hwait
  rw [hfailed] at hwait'
  obtain rfl := Option.some.inj hwait'
  have htake : history.take (k + 1) = history.take k ++ [success] := by
    rw [List.take_add_one, hk, Option.toList_some]
  obtain ⟨hlow, hhigh⟩ := waitAfter_mem hfirst hcap (history.take k) success
  rw [waitAfter_false, htake, due_concat]
  exact le_min (by linarith) hhigh

end Bounds

end PyNetFT.Lib.CappedDoubling
