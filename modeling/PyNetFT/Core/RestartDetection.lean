/-
PyNetFT.Core.RestartDetection — when `FtSequenceTracker` reports a
restart.

The tracker lives as long as the client: it is called with the FT number
of every record and told where sessions begin. `FtCall` is one such call
and a run is any list of them on a fresh tracker.

§1 is the trace characterisation. The two slots `previous` and
`restartCandidate` are read off the trace: a candidate is held exactly
after an observation that answered backward, and it is that
observation's number. `restart_iff` then says in terms of the trace when
a restart is reported.

§2 asks whether reordering alone can look like a restart. It can: two
late records with low numbers in ascending order, one right after the
other in a session whose newest number is past the low range. The
heuristic has nothing else to go by. `restart_iff_lateLowPair` shows that
this is the only way: without such a pair the tracker holds the newest
number at all times and reports no restart.
-/
import PyNetFT.Core.DeliveryTheorems
import PyNetFT.Core.SequenceRefinement

namespace PyNetFT.Core

open PyNetFT.Lib

namespace FtSequenceTracker

variable {t : FtSequenceTracker} {x : UInt32}

/-! ## §1 The trace characterisation -/

/-- The five answers of `observe`, each with its guard and the state it
leaves. -/
inductive FtMove (t : FtSequenceTracker) (x : UInt32) :
    FtSequenceKind → FtSequenceTracker → Prop where
  | first : t.hasLast = false →
      FtMove t x .first { t with hasLast := true, previous := x }
  | stall : t.hasLast = true → x = t.previous →
      FtMove t x .stall { t with hasRestartCandidate := false }
  | forward : t.hasLast = true → x ≠ t.previous → x - t.previous < 0x80000000 →
      FtMove t x .forward { t with previous := x, hasRestartCandidate := false }
  | restart : t.hasLast = true → ¬ x - t.previous < 0x80000000 → t.restarts x = true →
      FtMove t x .restart { t with previous := x, hasRestartCandidate := false }
  | backward : t.hasLast = true → ¬ x - t.previous < 0x80000000 → t.restarts x = false →
      FtMove t x .backward { t with hasRestartCandidate := true, restartCandidate := x }

theorem observe_move (t : FtSequenceTracker) (x : UInt32) :
    FtMove t x (t.observe x).1 (t.observe x).2 := by
  unfold observe
  split
  · exact .first ‹_›
  · rename_i hl
    rw [Bool.not_eq_false] at hl
    split
    · exact .stall hl ‹_›
    · dsimp only
      split
      · exact .forward hl ‹_› ‹_›
      · split
        · exact .restart hl ‹_› ‹_›
        · rename_i hr
          exact .backward hl ‹_› (Bool.not_eq_true _ ▸ hr)

/-- The restart test on the numbers themselves: between two low numbers
the modular distance is the plain one. -/
theorem restarts_iff : t.restarts x = true ↔
    t.hasRestartCandidate = true ∧ t.restartCandidate ≤ 0xffff ∧ 0x10000 ≤ t.previous ∧
      t.restartCandidate < x ∧ x ≤ 0xffff := by
  constructor
  · intro h
    simp only [restarts, Bool.and_eq_true, decide_eq_true_iff] at h
    obtain ⟨⟨⟨⟨hb, hc⟩, hlow⟩, hx⟩, hpos, hhalf⟩ := h
    refine ⟨hc, hlow, hb, ?_, hx⟩
    -- a candidate above `x` would be a distance of at least half the range
    rw [UInt32.lt_iff_toNat_lt] at hhalf hpos ⊢
    rw [UInt32.le_iff_toNat_le] at hlow hx
    rw [UInt32.toNat_sub] at hhalf hpos
    have hmax : restartLowMax.toNat = 65535 := rfl
    have hhalf' : (0x80000000 : UInt32).toNat = 2147483648 := rfl
    have hzero : (0 : UInt32).toNat = 0 := rfl
    omega
  · rintro ⟨hc, -, hb, hlt, hx⟩
    exact restarts_of_ascending hb hc hlt hx

/-- A call on the tracker. -/
inductive FtCall where
  | observe (x : UInt32)
  | beginSession
  deriving DecidableEq

/-- One call, with its answer if it has one. -/
def call (t : FtSequenceTracker) : FtCall → Option FtSequenceKind × FtSequenceTracker
  | .observe x => (some (t.observe x).1, (t.observe x).2)
  | .beginSession => (none, t.beginSession)

/-- The tracker after a list of calls on a fresh one. -/
def after (calls : List FtCall) : FtSequenceTracker := Mealy.final call {} calls

theorem after_concat (calls : List FtCall) (c : FtCall) :
    after (calls ++ [c]) = (call (after calls) c).2 :=
  Mealy.final_concat call {} calls c

/-- No candidate is held before anything was observed. -/
theorem hasLast_of_candidate (calls : List FtCall) :
    (after calls).hasRestartCandidate = true → (after calls).hasLast = true := by
  have hrun := Mealy.final_invariant (s := ({} : FtSequenceTracker))
    (K := fun _ _ t => t.hasRestartCandidate = true → t.hasLast = true) call calls (by simp) (by
      intro before c rest _ ih
      cases c with
      | beginSession => simp [call]
      | observe x =>
        intro _
        exact (observe_previous_cases _ x).1)
  exact hrun calls [] (List.append_nil _).symm

/-- The last call was an observation of `x` that answered backward. -/
def LastBackward (calls : List FtCall) (x : UInt32) : Prop :=
  ∃ before, calls = before ++ [.observe x] ∧ ((after before).observe x).1 = .backward

/-- What a backward answer leaves behind. -/
theorem LastBackward.candidate {calls : List FtCall} (h : LastBackward calls x) :
    (after calls).hasRestartCandidate = true ∧ (after calls).restartCandidate = x ∧
      ¬ x - (after calls).previous < 0x80000000 := by
  obtain ⟨before, rfl, hback⟩ := h
  rw [after_concat, call]
  have hmove := observe_move (after before) x
  rw [hback] at hmove
  generalize ((after before).observe x).2 = t' at hmove
  cases hmove with
  | backward hl hd hr => exact ⟨rfl, rfl, hd⟩

/-- Nothing else leaves a candidate. -/
theorem lastBackward_of_candidate {calls : List FtCall}
    (h : (after calls).hasRestartCandidate = true) : ∃ x, LastBackward calls x := by
  rcases List.eq_nil_or_concat calls with rfl | ⟨before, c, rfl⟩
  · cases h
  rw [List.concat_eq_append] at h ⊢
  cases c with
  | beginSession =>
    rw [after_concat] at h
    cases h
  | observe x =>
    refine ⟨x, before, rfl, ?_⟩
    rw [after_concat, call] at h
    have hmove := observe_move (after before) x
    generalize ((after before).observe x).2 = t' at hmove h
    generalize ((after before).observe x).1 = kind at hmove ⊢
    cases hmove with
    | first hl =>
      -- the first observation clears nothing, but there was nothing to clear
      have hlast := hasLast_of_candidate before h
      rw [hl] at hlast
      cases hlast
    | stall => cases h
    | forward => cases h
    | restart => cases h
    | backward => rfl

/-- A restart is answered exactly when the restart test and the
half-range test say so. -/
theorem observe_restart_iff (hl : t.hasRestartCandidate = true → t.hasLast = true) :
    (t.observe x).1 = .restart ↔
      t.hasRestartCandidate = true ∧ t.restartCandidate ≤ 0xffff ∧ 0x10000 ≤ t.previous ∧
        t.restartCandidate < x ∧ x ≤ 0xffff ∧ ¬ x - t.previous < 0x80000000 := by
  constructor
  · intro h
    have hmove := observe_move t x
    rw [h] at hmove
    generalize (t.observe x).2 = t' at hmove
    cases hmove with
    | restart _ hd hr =>
      obtain ⟨hc, hlow, hb, hlt, hx⟩ := restarts_iff.mp hr
      exact ⟨hc, hlow, hb, hlt, hx, hd⟩
  · rintro ⟨hc, hlow, hb, hlt, hx, hd⟩
    rw [observe_restart (hl hc) (low_ne_baseline hb hx) hd
      (restarts_iff.mpr ⟨hc, hlow, hb, hlt, hx⟩)]

/-- Two low numbers in ascending order re-baseline the tracker, whatever
it held. -/
theorem rebaseline (t : FtSequenceTracker) (hb : 0x10000 ≤ t.previous) {a b : UInt32}
    (hab : a < b) (hlow : b ≤ 0xffff) :
    (((t.observe a).2.observe b).1 = .restart ∨ ((t.observe a).2.observe b).1 = .forward) ∧
      ((t.observe a).2.observe b).2.previous = b ∧
      ((t.observe a).2.observe b).2.hasRestartCandidate = false := by
  have halow : a ≤ restartLowMax := by
    rw [UInt32.le_iff_toNat_le] at hlow ⊢
    rw [UInt32.lt_iff_toNat_lt] at hab
    have hmax : restartLowMax.toNat = (0xffff : UInt32).toNat := rfl
    omega
  -- once `a` is the baseline, `b` is ahead of it
  have hforward : ∀ u : FtSequenceTracker, u.hasLast = true → u.previous = a →
      ((u.observe b).1 = .restart ∨ (u.observe b).1 = .forward) ∧
        (u.observe b).2.previous = b ∧ (u.observe b).2.hasRestartCandidate = false := by
    intro u hu hp
    obtain ⟨hne, hahead⟩ := low_ahead hab hlow
    rw [observe_forward hu (hp ▸ hne) (hp ▸ hahead)]
    exact ⟨Or.inr rfl, rfl, rfl⟩
  have hmove := observe_move t a
  generalize (t.observe a).2 = t' at hmove
  generalize (t.observe a).1 = kind at hmove
  cases hmove with
  | first => exact hforward _ rfl rfl
  | stall _ heq => exact absurd heq (low_ne_baseline hb halow)
  | forward hl => exact hforward _ hl rfl
  | restart hl => exact hforward _ hl rfl
  | backward hl hd =>
    have hbd := behind_of_behind hb hab hlow hd
    have hr : FtSequenceTracker.restarts
        { t with hasRestartCandidate := true, restartCandidate := a } b = true :=
      restarts_of_ascending hb rfl hab hlow
    rw [observe_restart (t := { t with hasRestartCandidate := true, restartCandidate := a }) hl
      (low_ne_baseline hb hlow) hbd hr]
    exact ⟨Or.inl rfl, rfl, rfl⟩

/-- **Trace characterisation of restart detection.** After every list of
calls on a fresh tracker: a candidate is held exactly if the last call
was an observation answered backward, and then it is that call's number,
at least half the range ahead of the baseline; a restart is answered
exactly if moreover the candidate is low, the baseline is past the low
range, and the number observed is low, above the candidate and not in
the forward half of the baseline. From any state whose baseline is past
the low range, two ascending low numbers in a row re-baseline. -/
theorem restart_trace_characterisation :
    (∀ calls : List FtCall,
      ((after calls).hasRestartCandidate = true ↔ ∃ c, LastBackward calls c) ∧
      (∀ c, LastBackward calls c → (after calls).restartCandidate = c ∧
        2 ^ 31 ≤ (c - (after calls).previous).toNat) ∧
      ∀ x, ((after calls).observe x).1 = .restart ↔
        ∃ c, LastBackward calls c ∧ c ≤ 0xffff ∧ 0x10000 ≤ (after calls).previous ∧ c < x ∧
          x ≤ 0xffff ∧ 2 ^ 31 ≤ (x - (after calls).previous).toNat) ∧
      ∀ (t : FtSequenceTracker), 0x10000 ≤ t.previous → ∀ a b : UInt32, a < b → b ≤ 0xffff →
        (((t.observe a).2.observe b).1 = .restart ∨ ((t.observe a).2.observe b).1 = .forward) ∧
          ((t.observe a).2.observe b).2.previous = b ∧
          ((t.observe a).2.observe b).2.hasRestartCandidate = false := by
  have hhalf : ∀ y : UInt32, ¬ y < 0x80000000 ↔ 2 ^ 31 ≤ y.toNat := by
    intro y
    rw [UInt32.lt_iff_toNat_lt, Nat.not_lt]
    rfl
  refine ⟨?_, fun t hb a b hab hlow => rebaseline t hb hab hlow⟩
  intro calls
  refine ⟨⟨lastBackward_of_candidate, ?_⟩, ?_, ?_⟩
  · rintro ⟨c, hc⟩
    exact hc.candidate.1
  · intro c hc
    obtain ⟨-, hcand, hd⟩ := hc.candidate
    exact ⟨hcand, (hhalf _).mp hd⟩
  · intro x
    rw [observe_restart_iff (hasLast_of_candidate calls), hhalf]
    constructor
    · rintro ⟨hc, hlow, hb, hlt, hx, hd⟩
      obtain ⟨c, hlast⟩ := lastBackward_of_candidate hc
      obtain ⟨-, rfl, -⟩ := hlast.candidate
      exact ⟨_, hlast, hlow, hb, hlt, hx, hd⟩
    · rintro ⟨c, hlast, hlow, hb, hlt, hx, hd⟩
      obtain ⟨hc, rfl, -⟩ := hlast.candidate
      exact ⟨hc, hlow, hb, hlt, hx, hd⟩

end FtSequenceTracker

/-! ## §2 Restarts without a power cycle -/

open FtSequenceTracker

/-- What reaches the tracker of a client whose sensor never restarts:
records of the stream, named by their index, in any order and any
number, and session starts anywhere between them. -/
inductive StreamCall where
  | arrive (n : Nat)
  | beginSession
  deriving DecidableEq

namespace SensorStream

variable (stream : SensorStream)

/-- The call on the tracker. -/
def ftCall : StreamCall → FtCall
  | .arrive n => .observe (UInt32.ofNat (stream.ft n))
  | .beginSession => .beginSession

def ftStep (t : FtSequenceTracker) (c : StreamCall) : Option FtSequenceKind × FtSequenceTracker :=
  t.call (stream.ftCall c)

/-- The tracker of the client after such a list. -/
def ftAfter (calls : List StreamCall) : FtSequenceTracker := Mealy.final stream.ftStep {} calls

/-- The FT counters that arrived, unbounded. -/
def arrived (calls : List StreamCall) : List Nat :=
  calls.filterMap fun
    | .arrive n => some (stream.ft n)
    | .beginSession => none

/-- Two records one right after the other in a session, both behind the
newest, with low wire numbers in ascending order, while the newest has a
wire number past the low range. -/
def LateLowPair (calls : List StreamCall) : Prop :=
  ∃ before a b after, calls = before ++ .arrive a :: .arrive b :: after ∧
    ∃ newest ∈ (stream.arrived before).max?, 0x10000 ≤ newest % 2 ^ 32 ∧
      stream.ft a < newest ∧ stream.ft b < newest ∧
      stream.ft a % 2 ^ 32 < stream.ft b % 2 ^ 32 ∧ stream.ft b % 2 ^ 32 ≤ 0xffff

/-- What the tracker holds as long as it reported no restart: the newest
number, and a candidate only right after a late record, that record. -/
structure HoldsNewest (calls : List StreamCall) (t : FtSequenceTracker) : Prop where
  silent : stream.arrived calls = [] → t.hasLast = false
  newest : ∀ m ∈ (stream.arrived calls).max?, t.hasLast = true ∧ t.previous = UInt32.ofNat m
  candidate : t.hasRestartCandidate = true → ∃ before a, calls = before ++ [.arrive a] ∧
    t.restartCandidate = UInt32.ofNat (stream.ft a) ∧
    ∃ m ∈ (stream.arrived before).max?, stream.ft a < m

variable {stream}

theorem arrived_arrive (calls : List StreamCall) (n : Nat) :
    stream.arrived (calls ++ [.arrive n]) = stream.arrived calls ++ [stream.ft n] := by
  simp [arrived]

theorem arrived_beginSession (calls : List StreamCall) :
    stream.arrived (calls ++ [.beginSession]) = stream.arrived calls := by
  simp [arrived]

theorem HoldsNewest.beginSession {calls : List StreamCall} {t : FtSequenceTracker}
    (h : stream.HoldsNewest calls t) :
    stream.HoldsNewest (calls ++ [.beginSession]) t.beginSession := by
  constructor
  · rw [arrived_beginSession]
    exact h.silent
  · rw [arrived_beginSession]
    exact h.newest
  · intro hc
    cases hc

/-- A record keeps it, unless the tracker takes it for a restart. -/
theorem HoldsNewest.arrive {calls : List StreamCall} {t : FtSequenceTracker}
    (h : stream.HoldsNewest calls t) {n : Nat}
    (hnear : ∀ m ∈ (stream.arrived calls).max?, Near m (stream.ft n))
    (hkind : (t.observe (UInt32.ofNat (stream.ft n))).1 ≠ .restart) :
    stream.HoldsNewest (calls ++ [.arrive n]) (t.observe (UInt32.ofNat (stream.ft n))).2 := by
  have hmove := observe_move t (UInt32.ofNat (stream.ft n))
  have hconcat := max?_concat (stream.arrived calls) (stream.ft n)
  rw [← arrived_arrive] at hconcat
  have hheard : stream.arrived (calls ++ [.arrive n]) ≠ [] := by simp [arrived_arrive]
  cases hm : (stream.arrived calls).max? with
  | none =>
    have hsilent := h.silent (List.max?_eq_none_iff.mp hm)
    have hobs : t.observe (UInt32.ofNat (stream.ft n))
        = (.first, { t with hasLast := true, previous := UInt32.ofNat (stream.ft n) }) := by
      simp [FtSequenceTracker.observe, hsilent]
    rw [hobs]
    refine ⟨fun hnone => absurd hnone hheard, ?_, ?_⟩
    · intro m hmem
      rw [hconcat, hm] at hmem
      obtain rfl : stream.ft n = m := by simpa using hmem
      exact ⟨rfl, rfl⟩
    · intro hc
      obtain ⟨before, a, rfl, -⟩ := h.candidate hc
      rw [List.max?_eq_none_iff, arrived_arrive] at hm
      exact absurd hm (by simp)
  | some m =>
    obtain ⟨hl, hp⟩ := h.newest m hm
    obtain ⟨hlow, hhigh⟩ := hnear m hm
    have hzero := sub_eq_zero_iff m (stream.ft n) hlow hhigh
    have hahead := ahead_iff m (stream.ft n) hlow hhigh
    rw [← hp] at hzero hahead
    have hnewest : (stream.arrived (calls ++ [.arrive n])).max? = some (max m (stream.ft n)) := by
      rw [hconcat, hm]
      rfl
    -- in every case but a restart the baseline becomes the larger number
    suffices hsuff : (t.observe (UInt32.ofNat (stream.ft n))).2.hasLast = true ∧
        (t.observe (UInt32.ofNat (stream.ft n))).2.previous = UInt32.ofNat (max m (stream.ft n)) ∧
        ((t.observe (UInt32.ofNat (stream.ft n))).2.hasRestartCandidate = true →
          (t.observe (UInt32.ofNat (stream.ft n))).2.restartCandidate
            = UInt32.ofNat (stream.ft n) ∧ stream.ft n < m) by
      obtain ⟨hlast, hprev, hcand⟩ := hsuff
      refine ⟨fun hnone => absurd hnone hheard, ?_, ?_⟩
      · intro k hk
        rw [hnewest] at hk
        cases hk
        exact ⟨hlast, hprev⟩
      · intro hc
        exact ⟨calls, n, rfl, (hcand hc).1, m, hm, (hcand hc).2⟩
    generalize (t.observe (UInt32.ofNat (stream.ft n))).2 = t' at hmove ⊢
    generalize (t.observe (UInt32.ofNat (stream.ft n))).1 = kind at hmove hkind
    cases hmove with
    | first hnone => rw [hl] at hnone; cases hnone
    | restart => exact absurd rfl hkind
    | stall _ heq =>
      have hsame : stream.ft n = m := hzero.mp (by rw [heq, UInt32.sub_self])
      exact ⟨hl, by rw [hsame, max_self, ← hp], by simp⟩
    | forward _ _ hd =>
      rw [max_eq_right (hahead.mp hd)]
      exact ⟨hl, rfl, by simp⟩
    | backward _ hd _ =>
      have hlate : stream.ft n < m := not_le.mp (mt hahead.mpr hd)
      rw [max_eq_left hlate.le]
      exact ⟨hl, hp, fun _ => ⟨rfl, hlate⟩⟩

/-- The records that arrived before a record of the list are near it. -/
theorem near_newest {calls before after : List StreamCall} {n : Nat}
    (h : (stream.arrived calls).Pairwise Near) (hsplit : calls = before ++ .arrive n :: after) :
    ∀ m ∈ (stream.arrived before).max?, Near m (stream.ft n) := by
  intro m hm
  subst hsplit
  have hmem := (List.max?_eq_some_iff.mp hm).1
  have happ : stream.arrived (before ++ .arrive n :: after)
      = stream.arrived before ++ stream.ft n :: stream.arrived after := by
    simp [arrived]
  rw [happ, List.pairwise_append] at h
  exact h.2.2 m hmem (stream.ft n) (by simp)

/-- A restart reported by a tracker that holds the newest number is a
late low pair. -/
theorem HoldsNewest.lateLowPair {calls before after : List StreamCall} {t : FtSequenceTracker}
    (h : stream.HoldsNewest before t) {n : Nat}
    (hnear : ∀ m ∈ (stream.arrived before).max?, Near m (stream.ft n))
    (hsplit : calls = before ++ .arrive n :: after)
    (hkind : (t.observe (UInt32.ofNat (stream.ft n))).1 = .restart) :
    stream.LateLowPair calls := by
  have hmove := observe_move t (UInt32.ofNat (stream.ft n))
  rw [hkind] at hmove
  generalize (t.observe (UInt32.ofNat (stream.ft n))).2 = t' at hmove
  cases hmove with
  | restart hl hd hr =>
    obtain ⟨hc, -, hb, hlt, hx⟩ := restarts_iff.mp hr
    obtain ⟨before', a, rfl, hcand, m, hm, ham⟩ := h.candidate hc
    have hmax : (stream.arrived (before' ++ [.arrive a])).max? = some m := by
      rw [arrived_arrive, max?_concat, show (stream.arrived before').max? = some m from hm]
      simp [ham.le]
    have hp := (h.newest m hmax).2
    obtain ⟨hlow, hhigh⟩ := hnear m hmax
    have hlate : stream.ft n < m := by
      rw [hp, ahead_iff m _ hlow hhigh] at hd
      exact not_le.mp hd
    rw [hp, UInt32.le_iff_toNat_le, UInt32.toNat_ofNat'] at hb
    rw [hcand, UInt32.lt_iff_toNat_lt, UInt32.toNat_ofNat', UInt32.toNat_ofNat'] at hlt
    rw [UInt32.le_iff_toNat_le, UInt32.toNat_ofNat'] at hx
    refine ⟨before', a, n, after, by rw [hsplit]; simp, m, hm, hb, ham, hlate, hlt, hx⟩

theorem holdsNewest_nil : stream.HoldsNewest [] {} := by
  constructor
  · intro _
    rfl
  · intro m hm
    cases hm
  · intro hc
    cases hc

/-- Without a late low pair the tracker reports no restart and holds the
newest number after every prefix. -/
theorem holdsNewest_of_no_pair {calls : List StreamCall}
    (hnear : (stream.arrived calls).Pairwise Near) (hpair : ¬ stream.LateLowPair calls) :
    ∀ before after, calls = before ++ after →
      stream.HoldsNewest before (stream.ftAfter before) ∧
        some .restart ∉ Mealy.outputs stream.ftStep {} before := by
  refine Mealy.final_invariant (s := ({} : FtSequenceTracker))
    (K := fun before os t => stream.HoldsNewest before t ∧ some .restart ∉ os) stream.ftStep _
    ⟨holdsNewest_nil, by simp⟩ ?_
  rintro before c after hsplit ⟨hholds, hnone⟩
  cases c with
  | beginSession => exact ⟨hholds.beginSession, by simpa [ftStep, ftCall, call] using hnone⟩
  | arrive n =>
    have hn := near_newest hnear hsplit
    have hkind : ((Mealy.final stream.ftStep {} before).observe (UInt32.ofNat (stream.ft n))).1
        ≠ .restart := fun hkind => hpair (hholds.lateLowPair hn hsplit hkind)
    refine ⟨hholds.arrive hn hkind, ?_⟩
    simp only [List.mem_append, List.mem_singleton, not_or]
    exact ⟨hnone, fun heq => hkind (Option.some.inj heq).symm⟩

/-- Without a reported restart the tracker holds the newest number. -/
theorem holdsNewest_of_no_restart {calls : List StreamCall}
    (hnear : (stream.arrived calls).Pairwise Near)
    (hnone : some .restart ∉ Mealy.outputs stream.ftStep {} calls) :
    ∀ before after, calls = before ++ after →
      stream.HoldsNewest before (stream.ftAfter before) := by
  refine Mealy.final_invariant (s := ({} : FtSequenceTracker))
    (K := fun before _ t => stream.HoldsNewest before t) stream.ftStep _ holdsNewest_nil ?_
  intro before c after hsplit hholds
  cases c with
  | beginSession => exact hholds.beginSession
  | arrive n =>
    refine hholds.arrive (near_newest hnear hsplit) ?_
    intro hkind
    have hmem := Mealy.answer_mem_outputs stream.ftStep {} before (.arrive n) after
    rw [← hsplit] at hmem
    exact hnone (congrArg some hkind ▸ hmem)

/-- A late low pair is reported as a restart, at the latest by its
second record. -/
theorem restart_of_lateLowPair {calls : List StreamCall}
    (hnear : (stream.arrived calls).Pairwise Near) (hpair : stream.LateLowPair calls) :
    some .restart ∈ Mealy.outputs stream.ftStep {} calls := by
  by_contra hnone
  obtain ⟨before, a, b, after, hsplit, m, hm, hbase, ha, hb, hab, hlow⟩ := hpair
  have hholds := holdsNewest_of_no_restart hnear hnone before _ hsplit
  obtain ⟨hl, hp⟩ := hholds.newest m hm
  have hsplit' : calls = (before ++ [.arrive a] ++ [.arrive b]) ++ after := by simp [hsplit]
  have hholds' := holdsNewest_of_no_restart hnear hnone _ _ hsplit'
  -- both records are behind, so the newest number is still the same
  have hmax : (stream.arrived (before ++ [.arrive a] ++ [.arrive b])).max? = some m := by
    rw [arrived_arrive, max?_concat, arrived_arrive, max?_concat,
      show (stream.arrived before).max? = some m from hm]
    simp [ha.le, hb.le]
  have hkept := (hholds'.newest m hmax).2
  -- but two low numbers in a row have re-baselined the tracker
  have hbase' : 0x10000 ≤ (stream.ftAfter before).previous := by
    rw [hp, UInt32.le_iff_toNat_le, UInt32.toNat_ofNat']
    exact hbase
  have hmoved := (rebaseline (stream.ftAfter before) hbase'
    (a := UInt32.ofNat (stream.ft a)) (b := UInt32.ofNat (stream.ft b))
    (by rw [UInt32.lt_iff_toNat_lt, UInt32.toNat_ofNat', UInt32.toNat_ofNat']; exact hab)
    (by rw [UInt32.le_iff_toNat_le, UInt32.toNat_ofNat']; exact hlow)).2.1
  have hfinal : stream.ftAfter (before ++ [.arrive a] ++ [.arrive b])
      = (((stream.ftAfter before).observe (UInt32.ofNat (stream.ft a))).2.observe
          (UInt32.ofNat (stream.ft b))).2 := by
    rw [ftAfter, Mealy.final_concat, Mealy.final_concat]
    rfl
  rw [hfinal, hmoved] at hkept
  have hwire := congrArg UInt32.toNat hkept
  rw [UInt32.toNat_ofNat', UInt32.toNat_ofNat'] at hwire
  omega

end SensorStream

/-- `ft_restart_count` moves with the tracker's answer. -/
theorem receive_ftRestartCount (P : Platform) (config : Config) (s : Impl) (r : RecordCall)
    (h : (s.ftSequence.observe r.record.ftSequence).1 ≠ .restart) :
    (s.receive P config r).2.health.ftRestartCount = s.health.ftRestartCount := by
  have hclass : (s.classifyRecord config r.record r.receivedAt).1.health.ftRestartCount
      = s.health.ftRestartCount := by
    unfold Impl.classifyRecord
    dsimp only
    split
    · rfl
    · dsimp only
      split <;> simp [HealthSnapshot.countRecord, h]
  have himpl := handleRecord_impl P config r.callback r.record r.receivedAt s
  dsimp only [Impl.receive] at himpl ⊢
  rcases himpl with heq | ⟨message, heq⟩ | ⟨sample, heq⟩
  all_goals
    rw [heq]
    exact hclass

/-- **Restarts without a power cycle.** For a sensor that never restarts
and every list of arrivals and session starts whose counters are near
each other, a restart is reported exactly if the list has a late low
pair. Without one the tracker holds the wire number of the newest
arrived record after every prefix, so it never moves backward, and no
record moves `ft_restart_count`. -/
theorem restart_iff_lateLowPair (stream : SensorStream) (calls : List StreamCall)
    (hnear : (stream.arrived calls).Pairwise Near) :
    (some .restart ∈ Mealy.outputs stream.ftStep {} calls ↔ stream.LateLowPair calls) ∧
      (¬ stream.LateLowPair calls →
        (∀ before after, calls = before ++ after → ∀ m ∈ (stream.arrived before).max?,
          (stream.ftAfter before).previous = UInt32.ofNat m) ∧
        ∀ before n after, calls = before ++ .arrive n :: after →
          ∀ (P : Platform) (config : Config) (s : Impl) (r : RecordCall),
            s.ftSequence = stream.ftAfter before →
            r.record.ftSequence = UInt32.ofNat (stream.ft n) →
            (s.receive P config r).2.health.ftRestartCount = s.health.ftRestartCount) := by
  refine ⟨⟨?_, SensorStream.restart_of_lateLowPair hnear⟩, ?_⟩
  · intro hrestart
    by_contra hpair
    exact (SensorStream.holdsNewest_of_no_pair hnear hpair calls []
      (List.append_nil _).symm).2 hrestart
  · intro hpair
    refine ⟨?_, ?_⟩
    · intro before after hsplit m hm
      exact ((SensorStream.holdsNewest_of_no_pair hnear hpair before after hsplit).1.newest m hm).2
    · intro before n after hsplit P config s r hft hwire
      refine receive_ftRestartCount P config s r ?_
      rw [hft, hwire]
      intro hkind
      exact hpair ((SensorStream.holdsNewest_of_no_pair hnear hpair before _ hsplit).1.lateLowPair
        (SensorStream.near_newest hnear hsplit) hsplit hkind)

/-- A sensor that numbers both counters from zero. -/
def countingStream : SensorStream where
  rdt n := n
  ft n := n
  wrench n _ := Int32.ofNat n
  rdt_strictMono := by intro a b h; exact h
  ft_strictMono := by intro a b h; exact h

/-- Late records in descending order are no late low pair. -/
theorem restart_iff_descending :
    let calls := [StreamCall.arrive 0x10005, .arrive 7, .arrive 6, .beginSession, .arrive 8,
      .arrive 0x10006]
    some .restart ∉ Mealy.outputs countingStream.ftStep {} calls ∧
      ¬ countingStream.LateLowPair calls := by
  intro calls
  have hnone : some .restart ∉ Mealy.outputs countingStream.ftStep {} calls := by decide
  have hnear : (countingStream.arrived calls).Pairwise Near := by decide
  exact ⟨hnone, mt (restart_iff_lateLowPair countingStream calls hnear).1.mpr hnone⟩

/-- The records 5 and 6 arrive late, one after the other: the sensor did
not restart, and the tracker says it did and moves back to 6. -/
theorem reordering_reported_as_restart :
    ¬ ∀ (stream : SensorStream) (calls : List StreamCall),
      (stream.arrived calls).Pairwise Near →
        some .restart ∉ Mealy.outputs stream.ftStep {} calls := by
  intro h
  exact h countingStream [.arrive 0x10000, .arrive 5, .arrive 6] (by decide) (by decide)

end PyNetFT.Core
