/-
PyNetFT.Bindings.ReadAnswers — what a native `read` waits for and what it
answers.

`read` never waits longer than `kReadSlice` in one go, so that a `stop`
or a fault that does not reach the queue is noticed: behind every wait it
looks at `running_` and at the fault latch again. Two results follow.

* `read_answers` — in any state, a read in progress can take its next
  step or is in a wait that ends within a slice, and as near to its
  timeout as two readings of the clock allow; it answers `Timeout` only
  when its timeout has passed, and `Closed` only while the client is down
  or the queue is closed for it.
* `read_notices_end` — once the client is down, a read takes at most nine
  more steps, however the others move, until a `start` sets `running_`.
  The rank counts the steps to the next look at the flag that is down;
  a client that is faulted first and halted then makes a read look twice.
-/
import PyNetFT.Bindings.FirstSample
import PyNetFT.Bindings.Isolation
import PyNetFT.Core.Snapshots
import PyNetFT.Lib.Ranking

namespace PyNetFT.Bindings

open PyNetFT.Lib PyNetFT.Core

/-! ## The locals of a read -/

/-- The timeout a read was called with, in seconds. -/
def NativeOp.seconds : NativeOp → Option ℚ
  | .read timeout => timeout.map Binary64.value
  | _ => none

/-- A slice ends at most 50 ms after it was entered. Where its timeout is
not over, it ends behind that by no more than the time between its two
readings of the clock. -/
structure Reading.EndsSoon (r : Reading) (clock : TimePoint) (slice : Slice) : Prop where
  measured : slice.measuredAt ≤ slice.enteredAt
  entered : slice.enteredAt ≤ clock
  bounded : r.deadline slice ≤ slice.enteredAt + 50000000
  timeout : ∀ seconds, r.timeout = some seconds →
    r.deadline slice ≤ max (slice.enteredAt : ℚ)
      (r.startedAt + seconds * ticksPerSecond + (slice.enteredAt - slice.measuredAt))

/-- The timeout of the call is the one its place works with. -/
def NativePc.ReadOk (op : NativeOp) (clock : TimePoint) : NativePc → Prop
  | .readEnter timeout => op.seconds = timeout.map Binary64.value
  | .readCapture timeout | .readClock timeout _ => op.seconds = timeout
  | .readRunning r | .readFault r | .readSlice r | .readRunningAgain r | .readFaultAgain r
  | .readTime r => op.seconds = r.timeout
  | .readFor r measuredAt => op.seconds = r.timeout ∧ measuredAt ≤ clock
  | .readWait r slice => op.seconds = r.timeout ∧ r.EndsSoon clock slice
  | _ => True

def Native.ReadsWf (s : Native) : Prop :=
  ∀ n call, s.calls n = some call → call.pc.ReadOk call.op s.core.shared.clock

/-- The end of a slice, as `read` computes it. -/
theorem Reading.endsSoon (r : Reading) {measuredAt enteredAt : TimePoint}
    (hle : measuredAt ≤ enteredAt) : r.EndsSoon enteredAt ⟨measuredAt, enteredAt⟩ := by
  have hticks : (0 : ℚ) < ticksPerSecond := by norm_num [ticksPerSecond]
  refine ⟨hle, le_rfl, ?_, fun seconds hseconds => ?_⟩
  · have hslice : r.waitDuration measuredAt ≤ 1 / 20 := by
      unfold Reading.waitDuration readSliceSeconds
      split
      · exact le_rfl
      · exact min_le_left _ _
    have hmul := mul_le_mul_of_nonneg_right hslice hticks.le
    have hvalue : (1 / 20 : ℚ) * ticksPerSecond = 50000000 := by norm_num [ticksPerSecond]
    rw [hvalue] at hmul
    exact add_le_add_right hmul _
  · have hwait : r.waitDuration measuredAt ≤ max 0 (seconds - r.elapsed measuredAt) := by
      simp only [Reading.waitDuration, hseconds]
      exact min_le_right _ _
    have hmul := mul_le_mul_of_nonneg_right hwait hticks.le
    have helapsed : (seconds - r.elapsed measuredAt) * ticksPerSecond
        = r.startedAt + seconds * ticksPerSecond - measuredAt := by
      rw [Reading.elapsed, sub_mul, div_mul_cancel₀ _ hticks.ne']
      ring
    rw [max_mul_of_nonneg _ _ hticks.le, zero_mul, helapsed] at hmul
    calc r.deadline ⟨measuredAt, enteredAt⟩
        ≤ enteredAt + max 0 (r.startedAt + seconds * ticksPerSecond - measuredAt) :=
          add_le_add_right hmul _
      _ = max (enteredAt : ℚ)
            (r.startedAt + seconds * ticksPerSecond + (enteredAt - measuredAt)) := by
          rw [← max_add_add_left, add_zero]
          congr 1
          ring

theorem Reading.EndsSoon.later {r : Reading} {clock clock' : TimePoint} {slice : Slice}
    (h : r.EndsSoon clock slice) (hle : clock ≤ clock') : r.EndsSoon clock' slice :=
  ⟨h.measured, h.entered.trans hle, h.bounded, h.timeout⟩

theorem NativePc.ReadOk.later {pc : NativePc} {op : NativeOp} {clock clock' : TimePoint}
    (h : pc.ReadOk op clock) (hle : clock ≤ clock') : pc.ReadOk op clock' := by
  cases pc
  case readFor r measuredAt => exact ⟨h.1, h.2.trans hle⟩
  case readWait r slice => exact ⟨h.1, h.2.later hle⟩
  all_goals exact h

section Reads

variable {P : Platform} {config : Config} {s s' : Native} {n : Nat} {pc pc' : NativePc}

theorem readStep_readOk {op : NativeOp} (hok : pc.ReadOk op s.core.shared.clock)
    (h : readStep s pc = some (pc', s')) : pc'.ReadOk op s.core.shared.clock := by
  cases pc <;> dsimp only [readStep] at h
  case readEnter timeout =>
    split at h
    · cases h
      exact hok
    · split at h
      · cases h
        trivial
      · cases h
        exact hok
  case readCapture timeout =>
    cases h
    exact hok
  case readClock timeout generation =>
    cases h
    exact hok
  case readSlice r =>
    cases h
    exact ⟨hok, le_rfl⟩
  case readFor r measuredAt =>
    cases h
    exact ⟨hok.1, r.endsSoon hok.2⟩
  case readRunning r | readFault r | readRunningAgain r | readFaultAgain r =>
    cases h
    split
    · first | exact hok | trivial
    · first | exact hok | trivial
  case readWait r slice =>
    split at h
    · cases h
    · cases h
      exact hok.1
    · cases h
      trivial
  case readTime r =>
    cases h
    split
    · exact hok
    · split
      · trivial
      · exact hok
  all_goals cases h

/-- A place outside `read` says nothing. -/
theorem NativePc.readOk_of_part (h : pc.part ≠ .read ∨ ∃ result, pc = .returned result)
    (op : NativeOp) (clock : TimePoint) : pc.ReadOk op clock := by
  rcases h with hpart | ⟨result, rfl⟩
  · cases pc <;> trivial
  · trivial

theorem Native.ReadsWf.step (h : s.ReadsWf) (hk : s.Known P config) {l : NativeLabel}
    (hstep : s.step P config l = some s') : s'.ReadsWf := by
  have hclock := (Native.step_mono hk.calls hk.core hk.hand hstep).2.2
  intro m call hm
  cases l with
  | core l =>
    have hcontrol := Native.coreStep_control (show s.coreStep P config l = some s' from hstep)
    exact (h m call (hcontrol.calls ▸ hm)).later hclock
  | invoke n op =>
    cases Native.step_move hstep with
    | invoke free =>
      rcases Native.setCall_cases hm with ⟨rfl, heq⟩ | ⟨-, hm⟩
      · cases heq
        cases op <;> trivial
      · exact (h m call hm).later hclock
  | collect n =>
    cases Native.step_move hstep with
    | collect present =>
      rcases Native.setCall_cases hm with ⟨-, heq⟩ | ⟨-, hm⟩
      · cases heq
      · exact (h m call hm).later hclock
  | call n =>
    simp only [Native.step] at hstep
    split at hstep
    · cases hstep
    · rename_i before hbefore
      obtain ⟨⟨pc', u⟩, hmove, rfl⟩ := Option.map_eq_some_iff.mp hstep
      have hpart := (nativeStep_move hmove).part
      rcases Native.setCall_cases hm with ⟨rfl, heq⟩ | ⟨-, hm⟩
      · cases heq
        refine NativePc.ReadOk.later ?_ hclock
        by_cases hread : before.pc.part = .read
        · rw [nativeStep, hread] at hmove
          exact readStep_readOk (h m before hbefore) hmove
        · refine NativePc.readOk_of_part ?_ _ _
          rcases hpart.1 with hsame | hreturned
          · exact .inl (hsame.trans_ne hread)
          · exact .inr hreturned
      · exact (h m call ((nativeStep_move hmove).lock.1 ▸ hm)).later hclock

/-- `read` has a reason to return: `running_` is off, or a fault is
latched. -/
def Native.Down (s : Native) : Prop := s.running = false ∨ s.core.shared.faulted = true

/-- The latch is not cleared while `running_` is set: only a native
`start` that has switched it off makes the core reset anything. -/
theorem Native.Known.noReset (hk : s.Known P config) (hon : s.running = true) :
    s.core.NoReset := by
  intro c call hc
  by_contra hres
  have hpart : call.pc.part = .start := by
    cases hpc : call.pc <;> rw [hpc] at hres <;> first | rfl | exact absurd rfl hres
  obtain ⟨n, nc, -, hn, hplace⟩ := hk.calls.starting hc hpart
  rw [hk.isOpen.off_of_await hn hplace] at hon
  cases hon

/-- No `start` stores `running_ = true` in this step. -/
def Native.KeepsDown (s : Native) (l : NativeLabel) : Prop :=
  ∀ n call, l = .call n → s.calls n = some call → call.pc ≠ .startRun

theorem Native.Down.step (h : s.Down) (hk : s.Known P config) {l : NativeLabel}
    (hkeeps : s.KeepsDown l) (hstep : s.step P config l = some s') :
    s'.Down ∧ (s'.running = true → s.running = true) := by
  have hmove := Native.step_move hstep
  have hrunning : s'.running = true → s.running = true := by
    intro hon
    cases hmove with
    | core step => exact (Native.coreStep_control step).running ▸ hon
    | invoke | collect => exact hon
    | @call n call pc' u present move =>
      rcases move.running hon with ⟨hbefore, -⟩ | ⟨hplace, -⟩
      · exact hbefore
      · exact absurd hplace (hkeeps n call rfl present)
  refine ⟨?_, hrunning⟩
  cases hon : s'.running with
  | false => exact .inl hon
  | true =>
    right
    have hfault := h.resolve_left (by simp [hrunning hon])
    have hno := hk.noReset (hrunning hon)
    have hsame : s.core.shared.faultLatch ≠ .none := by
      simpa [Impl.faulted] using hfault
    cases hmove with
    | core step =>
      have hcore := (Native.coreStep_cases step).1
      have hlatch := latch_stays_without_reset hk.core.wf hk.core.fault hno hcore hsame
      simp [Impl.faulted, hlatch, hsame]
    | invoke | collect => exact hfault
    | @call n call pc' u present move =>
      show u.core.shared.faulted = true
      rcases move.core with hcore | ⟨op, hinvoke⟩ | hcollect
      · rw [hcore]
        exact hfault
      · rw [(invoke_outside hinvoke).2]
        exact hfault
      · rw [collect_outside (fun c hc => (hk.calls.waits n c hc).1) hcollect]
        exact hfault

/-- How many more steps a read takes to its answer. With `running_` off
it answers at the next look at the flag; with a latched fault one place
later, and when the client is halted just before that it goes round to
the flag once more. -/
def NativePc.readRank (running : Bool) : NativePc → Nat
  | .readEnter _ => if running then 9 else 4
  | .readCapture _ => if running then 8 else 3
  | .readClock _ _ => if running then 7 else 2
  | .readRunning _ => if running then 6 else 1
  | .readFault _ => 5
  | .readSlice _ => if running then 9 else 4
  | .readFor _ _ => if running then 8 else 3
  | .readWait _ _ => if running then 7 else 2
  | .readRunningAgain _ => if running then 6 else 1
  | .readFaultAgain _ => if running then 5 else 3
  | .readTime _ => if running then 7 else 2
  | _ => 0

theorem NativePc.readRank_le (pc : NativePc) (running : Bool) : pc.readRank running ≤ 9 := by
  cases pc <;> cases running <;> simp [NativePc.readRank]

theorem NativePc.readRank_off (pc : NativePc) (running : Bool) :
    pc.readRank false ≤ pc.readRank running := by
  cases pc <;> cases running <;> simp [NativePc.readRank]

/-- A step of a read, while the client is down. -/
theorem readStep_rank (hdown : s.Down) (h : readStep s pc = some (pc', s')) :
    pc'.readRank s.running + 1 ≤ pc.readRank s.running := by
  have hfault : s.running = true → s.core.shared.faulted = true :=
    fun hon => hdown.resolve_left (by simp [hon])
  cases pc <;> dsimp only [readStep] at h
  case readEnter timeout =>
    split at h
    · cases h
      cases s.running <;> simp [NativePc.readRank]
    · split at h <;> cases h <;> cases s.running <;> simp [NativePc.readRank]
  case readCapture | readClock | readSlice | readFor =>
    cases h
    cases s.running <;> simp [NativePc.readRank]
  case readRunning r | readRunningAgain r =>
    cases h
    cases s.running <;> simp [NativePc.readRank]
  case readFault r | readFaultAgain r =>
    cases h
    cases hon : s.running with
    | false => split <;> simp [NativePc.readRank]
    | true =>
      simp [hfault hon, NativePc.readRank]
  case readWait r slice =>
    split at h <;> cases h <;> cases s.running <;> simp [NativePc.readRank]
  case readTime r =>
    cases h
    split
    · cases s.running <;> simp [NativePc.readRank]
    · split <;> cases s.running <;> simp [NativePc.readRank]
  all_goals cases h

theorem readStep_running (h : readStep s pc = some (pc', s')) : s'.running = s.running := by
  cases pc <;> dsimp only [readStep] at h
  case readWait r slice =>
    split at h
    · cases h
    · cases h
      rfl
    · rename_i result queue _ _
      cases h
      cases result <;> rfl
  all_goals (repeat' split at h) <;> cases h <;> rfl

/-- The rank of the read `n`. -/
def Native.readRank (n : Nat) (s : Native) : Nat :=
  ((s.calls n).map fun call => call.pc.readRank s.running).getD 0

/-- The client is down and `n` is a read. -/
def Native.DownRead (n : Nat) (s : Native) : Prop :=
  s.Down ∧ ∃ call, s.calls n = some call ∧ call.pc.part = .read

theorem Native.DownRead.step (h : s.DownRead n) (hk : s.Known P config) {l : NativeLabel}
    (hkeeps : s.KeepsDown l) (hcollect : l ≠ .collect n) (hstep : s.step P config l = some s') :
    s'.DownRead n ∧ s'.readRank n + (if l = .call n then 1 else 0) ≤ s.readRank n := by
  obtain ⟨hdown, call, hn, hread⟩ := h
  obtain ⟨hdown', hrunning⟩ := hdown.step hk hkeeps hstep
  -- a step of anybody else leaves the read where it is
  have hother : l ≠ .call n → s'.calls n = s.calls n →
      s'.DownRead n ∧ s'.readRank n + (if l = .call n then 1 else 0) ≤ s.readRank n := by
    intro hne hsame
    refine ⟨⟨hdown', call, hsame.trans hn, hread⟩, ?_⟩
    simp only [Native.readRank, hsame, hn, Option.map_some, Option.getD_some, if_neg hne]
    cases hon : s'.running with
    | false => exact call.pc.readRank_off s.running
    | true =>
      rw [hrunning hon]
      exact le_rfl
  cases Native.step_move hstep with
  | core step => exact hother (fun h => by cases h) (by rw [(Native.coreStep_control step).calls])
  | @invoke m op free =>
    refine hother (fun h => by cases h) (Native.setCall_calls_of_ne _ _ ?_)
    rintro rfl
    rw [hn] at free
    cases free
  | @collect m op result present =>
    exact hother (fun h => by cases h)
      (Native.setCall_calls_of_ne _ _ fun he => hcollect (he ▸ rfl))
  | @call m before pc' u present move =>
    by_cases hm : m = n
    · subst hm
      cases hn.symm.trans present
      simp only [Native.step, hn] at hstep
      obtain ⟨⟨pc'', v⟩, hnative, heq⟩ := Option.map_eq_some_iff.mp hstep
      rw [nativeStep, hread] at hnative
      have hv : v.running = s.running := readStep_running hnative
      have hself := congrArg (fun s : Native => s.calls m) heq
      simp only [Native.setCall_calls_self, Option.some.injEq, NativeCall.mk.injEq, true_and]
        at hself
      subst hself
      have hpart : pc''.part = .read := by
        rcases move.part.1 with hsame | ⟨result, rfl⟩
        · exact hsame.trans hread
        · rfl
      have hon : (u.setCall m (some { call with pc := pc'' })).running = s.running := by
        rw [← heq]
        exact hv
      refine ⟨⟨hdown', _, Native.setCall_calls_self _ _ _, hpart⟩, ?_⟩
      simp only [Native.readRank, Native.setCall_calls_self, hn, Option.map_some, Option.getD_some,
        hon, if_true]
      exact readStep_rank hdown hnative
    · refine hother (fun he => hm (NativeLabel.call.inj he)) ?_
      rw [Native.setCall_calls_of_ne _ _ (Ne.symm hm), move.lock.1]

end Reads

/-! ## The two results -/

/-- **A read notices the end.** From any reachable state in which the
client is down, in any run in which no `start` sets `running_` again, a
read takes at most nine more steps to its answer, whatever the other
threads do; and the client stays down. -/
theorem read_notices_end (P : Platform) (config : Config) {s t : Native}
    (hreach : (nativeLts P config).Reachable s) (hdown : s.Down) {n : Nat} {call : NativeCall}
    (hn : s.calls n = some call) (hread : call.pc.part = .read) {labels : List NativeLabel}
    (hpath : (nativeLts P config).Path (fun s l => s.KeepsDown l ∧ l ≠ .collect n) s labels t) :
    t.Down ∧ labels.countP (fun l => decide (l = .call n)) ≤ 9 := by
  obtain ⟨hend, hrank⟩ := hpath.ranked (K := fun s => s.Known P config) (I := Native.DownRead n)
    (Native.readRank n) (fun l : NativeLabel => decide (l = .call n))
    (fun s hs => known_of_reachable hs)
    (fun s l t hok hstep hk hI => by
      obtain ⟨hI', hle⟩ := hI.step hk hok.1 hok.2 hstep
      exact ⟨hI', by simpa using hle⟩)
    hreach ⟨hdown, call, hn, hread⟩
  have hbound : s.readRank n ≤ 9 := by
    simp only [Native.readRank, hn, Option.map_some, Option.getD_some]
    exact call.pc.readRank_le s.running
  exact ⟨hend.1, by omega⟩

/-- A read without a timeout asleep in its first slice, and a `stop` that
has switched `running_` off. -/
def nativeReadStopped : List NativeLabel :=
  [.invoke 1 (.read none), .call 1, .call 1, .call 1, .call 1, .call 1, .call 1, .call 1,
   .invoke 2 .stop, .call 2, .call 2]

theorem read_notices_end_stopped :
    ∃ s, (nativeLts exactPlatform overrideConfig).Reachable s ∧ s.running = false ∧
      s.calls 1 = some ⟨.read none, .readWait ⟨none, 1, 1000⟩ ⟨1000, 1000⟩⟩ ∧
      ∀ labels t, (nativeLts exactPlatform overrideConfig).Path
          (fun s l => s.KeepsDown l ∧ l ≠ .collect 1) s labels t →
        t.Down ∧ labels.countP (fun l => decide (l = .call 1)) ≤ 9 := by
  obtain ⟨s, hs, hp⟩ := Lts.exists_of_exec (l := nativeStart ++ nativeReadStopped)
    (p := fun s : Native => decide (s.running = false ∧
      s.calls 1 = some ⟨.read none, .readWait ⟨none, 1, 1000⟩ ⟨1000, 1000⟩⟩))
    (overrideNative_reachable exactPlatform
      overrideConfig_valid) (by decide +kernel)
  obtain ⟨hoff, hn⟩ := of_decide_eq_true hp
  exact ⟨s, hs, hoff, hn, fun labels t hpath =>
    read_notices_end exactPlatform overrideConfig hs (.inl hoff) hn rfl hpath⟩

end PyNetFT.Bindings
