/-
PyNetFT.Bindings.ReadGenerations — which run a native read belongs to.

A read notes the generation of the queue once, at its beginning, and gets
a sample in that generation only. A run takes the generation that the
`close` of its own `start` has made; so a read that notes it between that
`close` and the `reset` behind it belongs to the run to come. Outside
that place it belongs to the run that is open, or to none.

What a step does to the samples taken is stated here once, for the
histories of the layers above.
-/
import PyNetFT.Bindings.FirstSample

namespace PyNetFT.Bindings

open PyNetFT.Lib PyNetFT.Core

/-! ## Noting the generation -/

section Capture

variable {P : Platform} {config : Config} {s s' : Native} {n g : Nat} {pc pc' : NativePc}

theorem readStep_captured (h : readStep s pc = some (pc', s')) (hg : pc'.captured = some g) :
    pc.captured = some g ∨ (∃ timeout, pc = .readCapture timeout) ∧
      g = s.queue.closeGeneration := by
  cases pc <;> dsimp only [readStep] at h
  case readEnter timeout =>
    split at h
    · cases h
      cases hg
    · split at h <;> cases h <;> cases hg
  case readCapture timeout =>
    cases h
    exact .inr ⟨⟨timeout, rfl⟩, (Option.some.inj hg).symm⟩
  case readClock | readSlice | readFor =>
    cases h
    exact .inl hg
  case readRunning r | readFault r | readRunningAgain r | readFaultAgain r =>
    cases h
    refine .inl ?_
    split at hg <;> exact hg
  case readWait r slice =>
    split at h
    · cases h
    · cases h
      exact .inl hg
    · cases h
      exact .inl hg
  case readTime r =>
    cases h
    refine .inl ?_
    split at hg
    · exact hg
    · split at hg <;> exact hg
  all_goals cases h

theorem NativeMove.part_of_captured (h : NativeMove n s pc pc' s') (hg : pc'.captured = some g) :
    pc.part = .read := by
  cases h with
  | look before => exact before.1
  | take => rfl
  | enter _ place => rcases place with ⟨-, rfl⟩ | ⟨-, rfl⟩ <;> cases hg
  | halt place => rcases place with ⟨-, rfl⟩ | ⟨-, rfl⟩ | ⟨message, -, rfl⟩ <;> cases hg
  | close place => rcases place with ⟨-, rfl⟩ | ⟨-, rfl⟩ <;> cases hg
  | call place => rcases place with ⟨-, rfl, -⟩ | ⟨-, rfl, -⟩ <;> cases hg
  | _ => cases hg

/-- A read that has a generation after a step had it before, or notes it
in this step. -/
theorem Native.step_captured (hstep : s.step P config (.call n) = some s') {call' : NativeCall}
    (hn : s'.calls n = some call') (hg : call'.pc.captured = some g) :
    ∃ call, s.calls n = some call ∧ (call.pc.captured = some g ∨
      (∃ timeout, call.pc = .readCapture timeout) ∧ g = s.queue.closeGeneration) := by
  simp only [Native.step] at hstep
  split at hstep
  · cases hstep
  · rename_i call hcall
    obtain ⟨⟨pc', u⟩, hmove, rfl⟩ := Option.map_eq_some_iff.mp hstep
    rw [Native.setCall_calls_self] at hn
    cases hn
    refine ⟨call, hcall, ?_⟩
    have hread := (nativeStep_move hmove).part_of_captured hg
    rw [nativeStep, hread] at hmove
    exact readStep_captured hmove hg

/-- A read that gets its sample had noted the generation of its answer. -/
theorem read_held (hstep : s.step P config (.call n) = some s') {call' : NativeCall} {x : Stamped}
    (hn : s'.calls n = some call') (hpc : call'.pc = .returned (.read g (.sample x))) :
    ∃ call, s.calls n = some call ∧ call.pc.captured = some g ∧ call.pc.part = .read ∧
      ∀ result, call.pc ≠ .returned result := by
  obtain ⟨call, hcall, hcases⟩ := Native.step_captured (g := g) hstep hn (by rw [hpc]; rfl)
  refine ⟨call, hcall, ?_⟩
  cases Native.step_move hstep with
  | @call _ before pc' u present move =>
    cases hcall.symm.trans present
    rw [Native.setCall_calls_self] at hn
    cases hn
    obtain ⟨op, pc⟩ := call
    dsimp only at hpc hcases move ⊢
    subst hpc
    have hread := move.part_of_captured (g := g) rfl
    refine ⟨hcases.resolve_right ?_, hread, move.part.2⟩
    -- noting the generation is not yet an answer
    rintro ⟨⟨timeout, rfl⟩, -⟩
    cases move with
    | look _ _ got => cases got
    | enter _ place => rcases place with ⟨hbad, -⟩ | ⟨hbad, -⟩ <;> cases hbad
    | halt place => rcases place with ⟨hbad, -⟩ | ⟨hbad, -⟩ | ⟨message, hbad, -⟩ <;> cases hbad
    | close place => rcases place with ⟨hbad, -⟩ | ⟨hbad, -⟩ <;> cases hbad
    | call place => rcases place with ⟨hbad, -⟩ | ⟨hbad, -⟩ <;> cases hbad

end Capture

/-! ## The run of a generation -/

/-- A read with the generation `g` gets samples of the run `own` only, or
none: the queue is past `g`, or closed, or open for that run, and in the
last two cases no `start` has closed it for a run of its own. -/
def Native.Bound (s : Native) (g : Nat) (own : Option Nat) : Prop :=
  g < s.queue.closeGeneration ∨
    g = s.queue.closeGeneration ∧ (∀ n call, s.calls n = some call → call.pc ≠ .startReset) ∧
      (s.queue.isClosed = true ∨ own = some s.run.generation)

section Bound

variable {P : Platform} {config : Config} {s s' : Native} {n g : Nat} {own : Option Nat}
  {pc pc' : NativePc}

/-- While the generation and the run of the queue stay, so does what the
reads are bound to. -/
theorem Native.Bound.frame (h : s.Bound g own)
    (hgeneration : s'.queue.closeGeneration = s.queue.closeGeneration)
    (hclosed : s'.queue.isClosed = s.queue.isClosed) (hrun : s'.run.generation = s.run.generation)
    (hcalls : ∀ n call, s'.calls n = some call → call.pc = .startReset →
      ∃ call, s.calls n = some call ∧ call.pc = .startReset) : s'.Bound g own := by
  rcases h with hpast | ⟨heq, hnone, hopen⟩
  · exact .inl (hpast.trans_eq hgeneration.symm)
  · refine .inr ⟨heq.trans hgeneration.symm, fun n call hcall hpc => ?_, ?_⟩
    · obtain ⟨before, hbefore, hpc⟩ := hcalls n call hcall hpc
      exact hnone n before hbefore hpc
    · rw [hclosed, hrun]
      exact hopen

/-- The step of a native call keeps the generation and the run of the
queue and makes no call ready for `reset`, or it closes or resets the
queue. -/
theorem NativeMove.queue (h : NativeMove n s pc pc' s') :
    (s'.queue.closeGeneration = s.queue.closeGeneration ∧
      s'.queue.isClosed = s.queue.isClosed ∧ s'.run.generation = s.run.generation ∧
      pc' ≠ .startReset) ∨
    s.queue.closeGeneration < s'.queue.closeGeneration ∨ pc = .startReset := by
  cases h with
  | look _ after => exact .inl ⟨rfl, rfl, rfl, by rintro rfl; cases after⟩
  | take _ _ _ same => exact .inl ⟨same.2.1, same.1, rfl, (fun h => by cases h)⟩
  | enter _ place =>
    rcases place with ⟨-, rfl⟩ | ⟨-, rfl⟩ <;> exact .inl ⟨rfl, rfl, rfl, (fun h => by cases h)⟩
  | halt place =>
    rcases place with ⟨-, rfl⟩ | ⟨-, rfl⟩ | ⟨message, -, rfl⟩ <;>
      exact .inl ⟨rfl, rfl, rfl, (fun h => by cases h)⟩
  | close | unwind => exact .inr (.inl (Nat.lt_succ_self _))
  | reset => exact .inr (.inr rfl)
  | call place =>
    rcases place with ⟨-, rfl, -⟩ | ⟨-, rfl, -⟩ <;>
      exact .inl ⟨rfl, rfl, rfl, (fun h => by cases h)⟩
  | _ => exact .inl ⟨rfl, rfl, rfl, (fun h => by cases h)⟩

theorem Native.Bound.step (h : s.Bound g own) {l : NativeLabel}
    (hstep : s.step P config l = some s') : s'.Bound g own := by
  cases Native.step_move hstep with
  | core step =>
    have hcontrol := Native.coreStep_control step
    refine h.frame hcontrol.generation hcontrol.closed (Native.coreStep_sameRun step).generation ?_
    intro n call hcall hpc
    exact ⟨call, hcontrol.calls ▸ hcall, hpc⟩
  | @invoke n op =>
    refine h.frame rfl rfl rfl fun m call hcall hpc => ?_
    rcases Native.setCall_cases hcall with ⟨-, heq⟩ | ⟨-, hbefore⟩
    · rw [← Option.some.inj heq] at hpc
      cases op <;> cases hpc
    · exact ⟨call, hbefore, hpc⟩
  | @call n call pc' u present move =>
    rcases move.queue with ⟨hgeneration, hclosed, hrun, hnot⟩ | hlater | hreset
    · refine h.frame hgeneration hclosed hrun fun m call' hcall hpc => ?_
      rcases Native.setCall_cases hcall with ⟨-, heq⟩ | ⟨-, hbefore⟩
      · rw [← Option.some.inj heq] at hpc
        exact absurd hpc hnot
      · rw [move.lock.1] at hbefore
        exact ⟨call', hbefore, hpc⟩
    · refine .inl (lt_of_le_of_lt ?_ hlater)
      exact h.elim Nat.le_of_lt fun h => h.1.le
    · -- no read is bound to the run to come
      rcases h with hpast | ⟨-, hnone, -⟩
      · rw [hreset] at move
        rw [move.resets rfl]
        exact .inl hpast
      · exact absurd hreset (hnone n call present)
  | @collect n op result present =>
    refine h.frame rfl rfl rfl fun m call hcall hpc => ?_
    rcases Native.setCall_cases hcall with ⟨-, hnone⟩ | ⟨-, hbefore⟩
    · cases hnone
    · exact ⟨call, hbefore, hpc⟩

/-- The read that takes a sample is bound to the current run. -/
theorem Native.Bound.takes (h : s.Bound g own) (hfree : s.queue.isClosed = false)
    (hcurrent : s.queue.closeGeneration = g) : own = some s.run.generation := by
  rcases h with hpast | ⟨-, -, hclosed | hown⟩
  · exact absurd hcurrent.symm (Nat.ne_of_lt hpast)
  · rw [hfree] at hclosed
    cases hclosed
  · exact hown

end Bound

/-! ## What is taken -/

/-- The sample that a native call gets in a step. -/
def NativeLabel.gets (l : NativeLabel) (s' : Native) : Option Stamped :=
  match l with
  | .call n => (s'.calls n).bind fun call => call.pc.got
  | _ => none

section Taken

variable {P : Platform} {config : Config} {s s' : Native} {l : NativeLabel} {x : Stamped}

theorem NativePc.got_some {pc : NativePc} (h : pc.got = some x) :
    ∃ g, pc = .returned (.read g (.sample x)) := by
  cases pc
  case returned result =>
    cases result
    case read g result =>
      cases result
      case sample y =>
        cases h
        exact ⟨g, rfl⟩
      all_goals cases h
    all_goals cases h
  all_goals cases h

theorem NativeMove.taken {n : Nat} {pc pc' : NativePc} (h : NativeMove n s pc pc' s') :
    (s'.history = s.history ∧ s'.run.generation = s.run.generation ∧
        s'.run.taken = s.run.taken ++ pc'.got.toList) ∨
      pc'.got = none ∧ pc = .startReset ∧ s' = s.resetQueue := by
  have hsame : pc'.got = none → s'.history = s.history → s'.run = s.run →
      (s'.history = s.history ∧ s'.run.generation = s.run.generation ∧
        s'.run.taken = s.run.taken ++ pc'.got.toList) := by
    intro hgot hhistory hrun
    rw [hgot, hrun]
    exact ⟨hhistory, rfl, (List.append_nil _).symm⟩
  cases h with
  | look _ _ got => exact .inl (hsame got rfl rfl)
  | take => exact .inl ⟨rfl, rfl, rfl⟩
  | reset => exact .inr ⟨rfl, rfl, rfl⟩
  | enter _ place => rcases place with ⟨-, rfl⟩ | ⟨-, rfl⟩ <;> exact .inl (hsame rfl rfl rfl)
  | halt place =>
    rcases place with ⟨-, rfl⟩ | ⟨-, rfl⟩ | ⟨message, -, rfl⟩ <;> exact .inl (hsame rfl rfl rfl)
  | close place => rcases place with ⟨-, rfl⟩ | ⟨-, rfl⟩ <;> exact .inl (hsame rfl rfl rfl)
  | call place => rcases place with ⟨-, rfl, -⟩ | ⟨-, rfl, -⟩ <;> exact .inl (hsame rfl rfl rfl)
  | _ => exact .inl (hsame rfl rfl rfl)

/-- A step adds what its call gets to the taken samples of the current
run, or begins another run, with none. -/
theorem Native.step_taken (hs : (nativeLts P config).Reachable s)
    (hstep : s.step P config l = some s') :
    (s'.history = s.history ∧ s'.run.generation = s.run.generation ∧
        s'.run.taken = s.run.taken ++ (l.gets s').toList) ∨
      l.gets s' = none ∧ s'.history = s.history ++ [s.run] ∧
        s.run.generation < s'.run.generation ∧ s'.run.taken = [] := by
  cases Native.step_move hstep with
  | core step =>
    obtain ⟨hhistory, hgeneration, htaken⟩ := Native.coreStep_taken step
    exact .inl ⟨hhistory, hgeneration, htaken.trans (List.append_nil _).symm⟩
  | invoke | collect => exact .inl ⟨rfl, rfl, (List.append_nil _).symm⟩
  | @call n call pc' u present move =>
    have hgets : NativeLabel.gets (.call n) (u.setCall n (some { call with pc := pc' }))
      = pc'.got := by
      rw [NativeLabel.gets, Native.setCall_calls_self]
      rfl
    rw [hgets]
    rcases move.taken with hsame | ⟨hgot, hreset, rfl⟩
    · exact .inl hsame
    · have hplace := (runWf_of_reachable hs).places n call present
      rw [hreset] at hplace
      exact .inr ⟨hgot, rfl, (queueWf_of_reachable hs).closed hplace.2, rfl⟩

end Taken

end PyNetFT.Bindings
