/-
PyNetFT.Python.OwnRuns — user code sees its own run.

A thread that has found its run current and holds on to what it reads
(`Client.InRun`) is in the native run of that start: a dispatcher in its
loop keeps every start waiting, and an iterator checks again behind its
native read. So the samples that reach a callback, or leave an iterator,
were taken in the run of its own start.

The dispatchers of starts before the last are over; with the join of
`stop` that makes a `stop` from outside quiescent.
-/
import PyNetFT.Python.RunIdentity

namespace PyNetFT.Python

open PyNetFT.Lib PyNetFT.Core PyNetFT.Bindings

/-! ## The calls of iterators -/

/-- The iterator a place belongs to. -/
def Pc.iterator : Pc → Option Nat
  | .nextEnter i | .nextCheck i | .nextRead i | .nextAwait i | .nextResult i _ | .nextClosed i
  | .faulted (some i) | .health (some i) | .healthAwait (some i) | .dropped (some i) _
  | .code (some i) _ _ | .halt (.raised i _) | .haltAwait (.raised i _) => some i
  | _ => none

structure Client.NextWf (s : Client) : Prop where
  op : ∀ o t i, s.threads o = some t → t.pc.iterator = some i → t.op = .next i
  made : ∀ o t i, s.threads o = some t → t.op = .next i → i < s.madeIterators

section Iterators

variable {P : Platform} {config : Config} {o : Owner} {caller nested : Option Nat}
  {choice : Choice} {s s' : Client} {l : ClientLabel} {pc pc' : Pc} {i : Nat}

theorem ThreadMove.iterator (hmove : ThreadMove o caller nested choice s pc pc' s')
    (hpc' : pc'.iterator = some i) : pc.iterator = some i := by
  cases hmove
  case quiet hquiet => cases hquiet <;> first | exact hpc' | cases hpc'
  case begins hplace => rcases hplace with ⟨rfl, -⟩ | ⟨rfl, -⟩ <;> cases hpc'
  case invokes hplace =>
    rcases hplace with ⟨a, rfl, rfl, -⟩ | ⟨run, error, rfl, rfl, -⟩ | ⟨ending, rfl, rfl, -⟩ |
      ⟨rfl, rfl, -⟩ | ⟨j, rfl, rfl, -⟩ | ⟨rfl, rfl, -⟩
    case inr.inr.inl => cases ending <;> exact hpc'
    all_goals exact hpc'
  case reads hplace =>
    rcases hplace with ⟨j, rfl, rfl⟩ | ⟨rfl, rfl⟩ <;> exact hpc'
  case faults iterator _ => cases iterator <;> exact hpc'
  case asksHealth iterator _ _ => cases iterator <;> exact hpc'
  case getsHealth iterator _ _ _ _ _ _ => cases iterator <;> exact hpc'
  case getsDropped iterator _ => cases iterator <;> exact hpc'
  case halted ending _ _ _ _ _ hafter =>
    have hbehind := (Client.afterStop_behind hafter).1
    cases ending with
    | stopped run => rcases hbehind with rfl | ⟨r, -, rfl⟩ <;> cases hpc'
    | raised j fault =>
      rw [show pc' = _ from hbehind] at hpc'
      cases hpc'
    | finish =>
      rw [show pc' = _ from hbehind] at hpc'
      cases hpc'
  all_goals first | exact hpc' | cases hpc'

theorem ClientOp.entry_iterator {op : ClientOp} (h : op.entry.iterator = some i) :
    op = .next i := by
  cases op <;> cases h
  rfl

theorem Client.NextWf.step (hn : s.NextWf) (hmove : ClientMove P config s l s') : s'.NextWf := by
  have hcount : s.madeIterators ≤ s'.madeIterators := by
    rcases hmove.iterators with ⟨hsame, -⟩ | ⟨-, hmore, -⟩ <;> omega
  have hop : ∀ o t i, s'.threads o = some t → t.pc.iterator = some i → t.op = .next i := by
    intro o t i ht hpc
    rcases hmove.came ht with ⟨before, hbefore, -, hop, hsame | ⟨choice, u, hthread, -⟩⟩ |
      hentry | ⟨-, hentry⟩
    · rw [hop]
      exact hn.op o before i hbefore (hsame ▸ hpc)
    · rw [hop]
      exact hn.op o before i hbefore (hthread.iterator hpc)
    · rw [hentry] at hpc
      exact ClientOp.entry_iterator hpc
    · rw [hentry] at hpc
      cases hpc
  refine ⟨hop, fun o t i ht hnext => ?_⟩
  rcases hmove.came ht with ⟨before, hbefore, -, hop, -⟩ | hentry | ⟨hop, -⟩
  · exact (hn.made o before i hbefore (hop ▸ hnext)).trans_le hcount
  · rw [hnext] at hentry
    have hplace := Client.place_of_thread ht
    rw [hentry] at hplace
    cases hmove.placed hplace with
    | kept _ hbefore =>
      obtain ⟨before, ht', hpc⟩ := Client.place_some.mp hbefore
      have hiterator : before.pc.iterator = some i := by rw [hpc]; rfl
      exact (hn.made o before i ht' (hn.op o before i ht' hiterator)).trans_le hcount
    | moved ht' hthread =>
      have hiterator := hthread.iterator (i := i) rfl
      exact (hn.made o _ i ht' (hn.op o _ i ht' hiterator)).trans_le hcount
    | @entered _ op _ hop hoffered =>
      obtain rfl : op = .next i := ClientOp.entry_iterator (by rw [← hop]; rfl)
      exact (of_decide_eq_true hoffered).trans_le hcount
    | built _ heq => cases heq
    | launched _ heq => cases heq
  · rw [hop] at hnext
    cases hnext

end Iterators

theorem nextWf_of_reach {P : Platform} {config : Config} {s : Client}
    {ok : Client → ClientLabel → Prop} (h : (clientLts P config).Reach ok s) : s.NextWf :=
  Lts.Reach.invariant_using (K := Client.Wf) (I := Client.NextWf) (fun _ hs => wf_of_reach hs)
    (by
      rintro s ⟨native, callback, -, rfl⟩
      exact ⟨fun _ _ _ h => (by cases h), fun _ _ _ h => (by cases h)⟩)
    (fun _ _ _ _ hstep hwf _ hn => hn.step (hwf.move hstep)) h

/-! ## The run of what is read -/

/-- The iterator that reads at a place. -/
def Pc.reader : Pc → Option Nat
  | .nextRead i | .nextAwait i | .nextResult i _ => some i
  | _ => none

/-- The sample in a thread's hands. -/
def Pc.hand : Pc → Option Stamped
  | .nextResult _ (.sample x) => some x
  | pc => pc.carried

/-- The run that a thread found current is still the client's: a
dispatcher keeps it so, an iterator may be overtaken. -/
def Client.InRun (s : Client) (pc : Pc) : Prop :=
  match pc.reader with
  | some i => s.Steady ∧ (s.iterators i).token = s.settled.2
  | none => pc.engaged = true

/-- What is known of the client below a history. -/
structure Client.Known (P : Platform) (config : Config) (s : Client) : Prop where
  wf : s.Wf
  runsWf : s.RunsWf
  backedOut : s.BackedOut
  iterators : s.IteratorsWf
  next : s.NextWf
  native : (nativeLts P config).Reachable s.native

theorem Client.known_of_reach {P : Platform} {config : Config} {s : Client}
    {ok : Client → ClientLabel → Prop} (h : (clientLts P config).Reach ok s) : s.Known P config :=
  ⟨wf_of_reach h, runsWf_of_reach h, backedOut_of_reach h, iteratorsWf_of_reach h,
    nextWf_of_reach h, native_of_reachable h.reachable⟩

section InRun

variable {P : Platform} {config : Config} {o : Owner} {caller nested : Option Nat}
  {choice : Choice} {s s' : Client} {l : ClientLabel} {pc pc' : Pc} {r i : Nat}

theorem Pc.iterator_of_reader (h : pc.reader = some i) : pc.iterator = some i := by
  cases pc <;> first | exact h | cases h

theorem Client.Known.reader_made (hk : s.Known P config) (hplace : s.place o = some pc)
    (hpc : pc.reader = some i) : i < s.madeIterators := by
  obtain ⟨t, ht, rfl⟩ := Client.place_some.mp hplace
  exact hk.next.made o t i ht (hk.next.op o t i ht (Pc.iterator_of_reader hpc))

/-- Around a dispatcher in its loop no start is under way. -/
theorem Client.Engaged.frame (he : s.Engaged r) (hk : s.Known P config)
    (hmove : ClientMove P config s l s') :
    s'.native.run.generation = s.native.run.generation ∧ s.commits l = false := by
  constructor
  · rcases hk.wf.resets hk.native hmove with hsame | ⟨o, a, call, -, hplace, -⟩
    · exact hsame
    · have hnot := he.2.2 o _ hplace
      cases hnot
  · rw [Bool.eq_false_iff]
    intro hcommits
    obtain ⟨o, pc, -, hplace, hb⟩ := Client.commits_place hcommits
    obtain ⟨a, hattempt⟩ := hb.attempt
    have hnot := he.2.2 o pc hplace
    rw [Pc.starting_of_attempt hattempt] at hnot
    cases hnot

theorem Client.Known.engaged (hk : s.Known P config) (hplace : s.place o = some pc)
    (hpc : pc.engaged = true) : ∃ r, o = .dispatcher r ∧ s.Engaged r := by
  obtain ⟨r, rfl⟩ := (hk.wf.fits o pc hplace).mp (by cases pc <;> first | rfl | exact hpc)
  exact ⟨r, rfl, hk.runsWf.engaged r pc hplace hpc⟩

/-- A thread that is in its run after a step was in it before, and it is
the same native run. -/
theorem Client.InRun.before (hin : s'.InRun pc') (hk : s.Known P config)
    (hmove : ClientMove P config s l s') (hplace : s.place o = some pc)
    (hreader : pc.reader = pc'.reader) (hengaged : pc'.engaged = true → pc.engaged = true) :
    s.InRun pc ∧ s'.native.run.generation = s.native.run.generation := by
  unfold Client.InRun at hin ⊢
  rw [hreader]
  cases hpc : pc'.reader with
  | none =>
    rw [hpc] at hin
    have hbefore := hengaged hin
    obtain ⟨r, -, he⟩ := hk.engaged hplace hbefore
    exact ⟨hbefore, (he.frame hk hmove).1⟩
  | some i =>
    rw [hpc] at hin
    obtain ⟨hsteady, htoken⟩ := hin
    have hmade := hk.reader_made hplace (hreader.trans hpc)
    have hkept : (s'.iterators i).token = (s.iterators i).token := by
      rcases hmove.iterators with ⟨-, hkept⟩ | ⟨-, -, -, hkept⟩
      · exact hkept i
      · exact hkept i (Nat.ne_of_lt hmade)
    cases hcommits : s.commits l with
    | true =>
      have hold := hk.iterators.outdated hk.runsWf hk.wf hmove hcommits hmade
      exact absurd htoken (Nat.ne_of_lt hold.token)
    | false =>
      have hbefore := hsteady.before hk.runsWf hk.wf hmove hcommits
      refine ⟨⟨hbefore, ?_⟩, hk.wf.run_stays hk.native hmove hbefore.2⟩
      rw [← hkept, htoken, hk.runsWf.settled_step hk.wf hmove hcommits]

/-- What was taken stays. -/
theorem ClientMove.took (hmove : ClientMove P config s l s') {g : Nat} {x : Stamped}
    (htook : s.native.Took g x) : s'.native.Took g x := by
  rcases hmove.native_step with hsame | ⟨k, hstep, -⟩
  · rw [hsame]
    exact htook
  · exact htook.step hstep

/-- How a sample comes into a thread's hands. -/
theorem ThreadMove.hand {x : Stamped} (hmove : ThreadMove o caller nested choice s pc pc' s')
    (hpc' : pc'.hand = some x) :
    (pc.hand = some x ∨ pc.awaits = some .read ∧ ∃ op g,
      s.native.calls o.nativeId = some ⟨op, .returned (.read g (.sample x))⟩) ∧
      pc.reader = pc'.reader ∧ (pc'.engaged = true → pc.engaged = true) := by
  cases hmove
  case quiet hquiet =>
    cases hquiet
    case receives | converts | takes | calls => exact ⟨.inl hpc', rfl, fun _ => rfl⟩
    all_goals cases hpc'
  case begins hplace => rcases hplace with ⟨rfl, -⟩ | ⟨rfl, -⟩ <;> cases hpc'
  case invokes hplace =>
    rcases hplace with ⟨a, -, rfl, -⟩ | ⟨run, error, -, rfl, -⟩ | ⟨ending, -, rfl, -⟩ |
      ⟨-, rfl, -⟩ | ⟨j, -, rfl, -⟩ | ⟨-, rfl, -⟩ <;> cases hpc'
  case reads op _ result hreturned _ hplace =>
    rcases hplace with ⟨j, rfl, rfl⟩ | ⟨rfl, rfl⟩ <;> cases result <;> cases hpc'
    · exact ⟨.inr ⟨rfl, op, _, hreturned⟩, rfl, id⟩
    · exact ⟨.inr ⟨rfl, op, _, hreturned⟩, rfl, fun _ => rfl⟩
  case halted ending _ _ _ _ _ hafter =>
    have hbehind := (Client.afterStop_behind hafter).1
    cases ending with
    | stopped run => rcases hbehind with rfl | ⟨r, -, rfl⟩ <;> cases hpc'
    | raised j fault =>
      rw [show pc' = _ from hbehind] at hpc'
      cases hpc'
    | finish =>
      rw [show pc' = _ from hbehind] at hpc'
      cases hpc'
  all_goals cases hpc'

/-- What a thread in its run has read is of the current native run. -/
structure Client.SamplesWf (s : Client) : Prop where
  reading : ∀ o pc op g x, s.place o = some pc → pc.awaits = some .read → s.InRun pc →
    s.native.calls o.nativeId = some ⟨op, .returned (.read g (.sample x))⟩ →
    g = s.native.run.generation
  hand : ∀ o pc x, s.place o = some pc → pc.hand = some x → s.InRun pc →
    s.native.Took s.native.run.generation x

/-- The native call of a thread that does not move itself makes its own
steps. -/
theorem ClientMove.native_call (hmove : ClientMove P config s l s')
    (hother : ∀ choice, l ≠ .thread o choice) :
    s'.native.calls o.nativeId = s.native.calls o.nativeId ∨
      l = .native (.call o.nativeId) ∧
        s.native.step P config (.call o.nativeId) = some s'.native := by
  cases hmove with
  | @native k native hforeign hstep =>
    cases Native.step_move hstep with
    | core step => exact .inl (by dsimp only; rw [(Native.coreStep_control step).calls])
    | invoke => cases hforeign
    | collect => cases hforeign
    | @call n call pc' u present move =>
      by_cases hn : o.nativeId = n
      · subst hn
        exact .inr ⟨rfl, hstep⟩
      · refine .inl ?_
        dsimp only
        rw [Native.setCall_calls_of_ne _ _ hn, move.lock.1]
  | @thread o' choice t pc' u ht hthread =>
    have hne : o.nativeId ≠ o'.nativeId := by
      intro heq
      obtain rfl := Owner.nativeId_inj heq
      exact hother choice rfl
    exact .inl (hthread.native.calls_of_ne hne)
  | _ => exact .inl rfl

/-- A read that comes back with a sample has taken it in the current
run. -/
theorem Client.Known.answered (hk : s.Known P config) (hmove : ClientMove P config s l s')
    (hother : ∀ choice, l ≠ .thread o choice) {op : NativeOp} {g : Nat} {x : Stamped}
    (hcall : s'.native.calls o.nativeId = some ⟨op, .returned (.read g (.sample x))⟩) :
    s.native.calls o.nativeId = some ⟨op, .returned (.read g (.sample x))⟩ ∨
      g = s.native.run.generation := by
  rcases hmove.native_call hother with hsame | ⟨-, hstep⟩
  · exact .inl (hsame.symm.trans hcall)
  · obtain ⟨hfree, hcurrent, -⟩ := read_takes hstep hcall rfl
    exact .inr (hcurrent.symm.trans ((queueWf_of_reachable hk.native).current hfree))

theorem Client.SamplesWf.step (h : s.SamplesWf) (hk : s.Known P config)
    (hmove : ClientMove P config s l s') : s'.SamplesWf := by
  constructor
  · intro o pc op g x hplace hawaits hin hcall
    cases hmove.placed hplace with
    | kept hother hbefore =>
      obtain ⟨hin', hrun⟩ := hin.before hk hmove hbefore rfl id
      rw [hrun]
      rcases hk.answered hmove hother hcall with hcall' | hnew
      · exact h.reading o pc op g x hbefore hawaits hin' hcall'
      · exact hnew
    | moved ht hthread hstate =>
      rw [hstate] at hcall
      cases hthread.native with
      | @invoked op' _ _ hinvoke =>
        -- a call that has just been made has not returned
        have hentry := (Native.invoke_calls hinvoke).symm.trans hcall
        cases op' <;> cases hentry
      | same _ hafter _ =>
        rw [hawaits] at hafter
        cases hafter
      | collected _ hafter _ =>
        rw [hawaits] at hafter
        cases hafter
      | asked _ hafter _ _ =>
        rw [hafter] at hawaits
        cases hawaits
      | told _ hafter _ _ =>
        rw [hafter] at hawaits
        cases hawaits
    | entered _ hentry hoffered =>
      rw [hentry, (Client.offers_entry hoffered).2.1] at hawaits
      cases hawaits
    | built _ hentry =>
      rw [hentry] at hawaits
      cases hawaits
    | launched _ hentry =>
      rw [hentry] at hawaits
      cases hawaits
  · intro o pc x hplace hhand hin
    cases hmove.placed hplace with
    | kept hother hbefore =>
      obtain ⟨hin', hrun⟩ := hin.before hk hmove hbefore rfl id
      rw [hrun]
      exact hmove.took (h.hand o pc x hbefore hhand hin')
    | moved ht hthread hstate =>
      have hbefore := Client.place_of_thread ht
      obtain ⟨hcases, hreader, hengaged⟩ := hthread.hand hhand
      obtain ⟨hin', hrun⟩ := hin.before hk hmove hbefore hreader hengaged
      rw [hrun]
      rcases hcases with hhand' | ⟨hawaits, op, g, hcall⟩
      · exact hmove.took (h.hand o _ x hbefore hhand' hin')
      · obtain rfl := h.reading o _ op g x hbefore hawaits hin' hcall
        exact hmove.took ((queueWf_of_reachable hk.native).reads _ _ _ _ hcall rfl)
    | @entered _ op _ hentry =>
      rw [hentry] at hhand
      cases op <;> cases hhand
    | built _ hentry =>
      rw [hentry] at hhand
      cases hhand
    | launched _ hentry =>
      rw [hentry] at hhand
      cases hhand

end InRun

theorem samplesWf_of_reach {P : Platform} {config : Config} {s : Client}
    {ok : Client → ClientLabel → Prop} (h : (clientLts P config).Reach ok s) : s.SamplesWf :=
  Lts.Reach.invariant_using (K := Client.Known P config) (I := Client.SamplesWf)
    (fun _ hs => Client.known_of_reach hs)
    (by
      rintro s ⟨native, callback, -, rfl⟩
      exact ⟨fun _ _ _ _ _ h => (by cases h), fun _ _ _ h => (by cases h)⟩)
    (fun _ _ _ _ hstep hk _ hs => hs.step hk (hk.wf.move hstep)) h

/-! ## The samples of a start -/

/-- `x` was pushed in the native run of the start with the token, and in
no other. -/
def RunHistory.Pushed (h : RunHistory) (s : Client) (token : Nat) (x : Stamped) : Prop :=
  ∃ run ∈ s.native.runs, h.generation token = some run.generation ∧ x ∈ run.pushed ∧
    ∀ other ∈ s.native.runs, x ∈ other.pushed → other = run

/-- A dispatcher in its loop is in the native run of its start, and what
an iterator has returned was taken in that of its own. -/
structure RunHistory.Own (s : Client) (h : RunHistory) : Prop where
  engaged : ∀ r pc, s.place (.dispatcher r) = some pc → pc.engaged = true →
    h.generation (s.runs r).token = some s.native.run.generation
  yielded : ∀ c t i x, s.threads (.call c) = some t → t.op = .next i →
    t.pc = .returned (.sample x) →
    ∃ g, h.generation (s.iterators i).token = some g ∧ s.native.Took g x

section Own

variable {P : Platform} {config : Config} {o : Owner} {caller nested : Option Nat}
  {choice : Choice} {s s' : Client} {l : ClientLabel} {pc pc' : Pc} {r i : Nat} {h : RunHistory}
  {x : Stamped}

/-- The step of a thread that is not about to succeed. -/
theorem Client.not_commits (hplace : s.place o = some pc) (hpc : pc.attempt = none) :
    s.commits (.thread o choice) = false := by
  rw [Bool.eq_false_iff]
  intro hcommits
  obtain ⟨o', pc', hl, hplace', hb⟩ := Client.commits_place hcommits
  cases hl
  obtain ⟨a, hattempt⟩ := hb.attempt
  rw [hplace] at hplace'
  cases hplace'
  rw [hpc] at hattempt
  cases hattempt

theorem RunHistory.generation_kept (hnot : s.commits l = false) :
    (h.record s l s').generation = h.generation := by
  rcases h.generation_record s s' l with ⟨-, hsame⟩ | ⟨hcommits, -⟩
  · exact hsame
  · rw [hnot] at hcommits
    cases hcommits

/-- The generation of a start that has succeeded stays noted. -/
theorem RunHistory.Ok.generation_stays (hok : h.Ok s) {k g : Nat} (hk : h.generation k = some g) :
    (h.record s l s').generation k = some g := by
  rcases h.generation_record s s' l with ⟨-, hsame⟩ | ⟨-, hnew⟩
  · rw [hsame, hk]
  · rw [hnew, Function.update_of_ne (Nat.ne_of_lt (Nat.lt_succ_of_le (hok.bound k g hk).1)), hk]

/-- A sample that an iterator returns was taken in the run it found
current. -/
theorem ThreadMove.returns
    (hmove : ThreadMove o caller nested choice s pc (.returned (.sample x)) s') :
    ∃ i, pc = .nextResult i (.sample x) ∧ s.lock = none ∧ s.iteratorIsCurrent i = true := by
  generalize hpc' : Pc.returned (.sample x) = pc' at hmove
  cases hmove
  case yields i y hfree hcurrent =>
    cases hpc'
    exact ⟨i, rfl, hfree, hcurrent⟩
  case quiet hquiet =>
    cases hquiet
    case refused hanswer => rcases hanswer with rfl | ⟨message, rfl⟩ <;> cases hpc'
    case unavailable hanswer => rcases hanswer with rfl | ⟨message, rfl⟩ <;> cases hpc'
    case tells r =>
      cases hfailure : s.failureOf r <;> rw [hfailure] at hpc' <;> cases hpc'
    all_goals cases hpc'
  case begins hplace => rcases hplace with ⟨rfl, -⟩ | ⟨rfl, -⟩ <;> cases hpc'
  case invokes hplace =>
    rcases hplace with ⟨a, -, rfl, -⟩ | ⟨run, error, -, rfl, -⟩ | ⟨ending, -, rfl, -⟩ |
      ⟨-, rfl, -⟩ | ⟨j, -, rfl, -⟩ | ⟨-, rfl, -⟩ <;> cases hpc'
  case reads hplace => rcases hplace with ⟨j, -, rfl⟩ | ⟨-, rfl⟩ <;> cases hpc'
  case halted ending _ _ _ _ _ hafter =>
    have hbehind := (Client.afterStop_behind hafter).1
    cases ending with
    | stopped run => rcases hbehind with rfl | ⟨r, -, rfl⟩ <;> cases hpc'
    | raised j fault =>
      rw [show pc' = _ from hbehind] at hpc'
      cases hpc'
    | finish =>
      rw [show pc' = _ from hbehind] at hpc'
      cases hpc'
  all_goals cases hpc'

theorem RunHistory.Own.step (hown : h.Own s) (hok : h.Ok s) (hk : s.Known P config)
    (hsamples : s.SamplesWf) (hmove : ClientMove P config s l s') : (h.record s l s').Own s' := by
  constructor
  · intro r pc hplace hpc
    have hstays : ∀ before, s.place (.dispatcher r) = some before → before.engaged = true →
        (h.record s l s').generation (s'.runs r).token = some s'.native.run.generation := by
      intro before hbefore hengaged
      have he := hk.runsWf.engaged r before hbefore hengaged
      obtain ⟨hrun, hnot⟩ := he.frame hk hmove
      rw [RunHistory.generation_kept hnot, hrun,
        hk.wf.token_kept hmove (Option.isSome_iff_exists.mpr ⟨_, hbefore⟩)]
      exact hown.engaged r before hbefore hengaged
    cases hmove.placed hplace with
    | kept _ hbefore => exact hstays pc hbefore hpc
    | @moved t choice u ht hthread _ hlabel =>
      have hbefore := Client.place_of_thread ht
      rcases hthread.engaged hpc with hengaged | ⟨r', howner, hcheck, hfree, hcurrent⟩
      · exact hstays _ hbefore hengaged
      · -- it has found its run current
        cases howner
        obtain ⟨hrunning, -, htoken, -⟩ := Client.callbackRunIsCurrent_iff.mp hcurrent
        have hsteady := Client.steady_of_free hfree hrunning
        have hnot : s.commits l = false := by
          rw [hlabel]
          exact Client.not_commits hbefore (by rw [hcheck]; rfl)
        rw [RunHistory.generation_kept hnot, hk.wf.run_stays hk.native hmove hsteady.2,
          hk.wf.token_kept hmove (Option.isSome_iff_exists.mpr ⟨_, hbefore⟩), ← htoken]
        have hcurrent := hok.current hsteady
        rwa [Client.settled_of_free hfree] at hcurrent
    | entered howner => cases howner
    | built _ hentry =>
      rw [hentry] at hpc
      cases hpc
    | launched _ hentry =>
      rw [hentry] at hpc
      cases hpc
  · intro c t' i x ht' hop hpc'
    have htoken : i < s.madeIterators → (s'.iterators i).token = (s.iterators i).token := by
      intro hmade
      rcases hmove.iterators with ⟨-, hkept⟩ | ⟨-, -, -, hkept⟩
      · exact hkept i
      · exact hkept i (Nat.ne_of_lt hmade)
    cases hmove.call_came ht' with
    | kept ht _ _ =>
      obtain ⟨g, hg, htook⟩ := hown.yielded c t' i x ht hop hpc'
      rw [htoken (hk.next.made _ t' i ht hop)]
      exact ⟨g, hok.generation_stays hg, hmove.took htook⟩
    | @moved t choice pc' u _ ht hthread hafter =>
      subst hafter
      dsimp only at hop hpc'
      subst hpc'
      obtain ⟨j, hpc, hfree, hcurrent⟩ := hthread.returns
      have hbefore := Client.place_of_thread ht
      have hj := hk.next.op _ t j ht (by rw [hpc]; rfl)
      rw [hop] at hj
      cases hj
      obtain ⟨hrunning, -, hrun⟩ := Client.iteratorIsCurrent_iff.mp hcurrent
      have hsteady := Client.steady_of_free hfree hrunning
      have hsettled : (s.iterators i).token = s.settled.2 := by
        rw [Client.settled_of_free hfree]
        exact hrun.symm
      rw [htoken (hk.next.made _ t i ht hop), hsettled]
      refine ⟨s.native.run.generation, hok.generation_stays (hok.current hsteady), hmove.took ?_⟩
      refine hsamples.hand _ t.pc x hbefore (by rw [hpc]; rfl) ?_
      rw [hpc]
      exact ⟨hsteady, hsettled⟩
    | entered _ hafter =>
      subst hafter
      dsimp only at hop hpc'
      subst hop
      cases hpc'

/-- A sample that was taken in the native run of a start. -/
theorem RunHistory.pushed_of_took (hk : s.Known P config) {token g : Nat}
    (hg : h.generation token = some g) (htook : s.native.Took g x) : h.Pushed s token x := by
  obtain ⟨run, hrun, rfl, hpushed, honly⟩ := (queueWf_of_reachable hk.native).pushed_of_took htook
  exact ⟨run, hrun, hg, hpushed, honly⟩

end Own

theorem own_of_reach {P : Platform} {config : Config} {p : Client × RunHistory}
    {ok : Client × RunHistory → ClientLabel → Prop} (h : (runLts P config).Reach ok p) :
    p.2.Own p.1 := by
  refine Lts.Reach.invariant_using
    (K := fun p => p.2.Ok p.1 ∧ p.1.Known P config ∧ p.1.SamplesWf)
    (I := fun p => p.2.Own p.1)
    (fun p hp => ⟨runHistory_ok_of_reach hp, Client.known_of_reach hp.unrecorded,
      samplesWf_of_reach hp.unrecorded⟩) ?_ ?_ h
  · rintro ⟨s, h⟩ ⟨⟨native, callback, -, hs⟩, rfl⟩
    obtain rfl : s = _ := hs
    exact ⟨fun _ _ h => (by cases h), fun _ _ _ _ h => (by cases h)⟩
  · rintro ⟨s, h⟩ l ⟨s', h'⟩ - hstep ⟨hok, hk, hsamples⟩ - hown
    obtain ⟨hclient, hrecord⟩ := Lts.recorded_step hstep
    dsimp only at hclient hrecord hok hk hsamples hown ⊢
    subst hrecord
    exact hown.step hok hk hsamples (hk.wf.move hclient)

/-! ## The dispatchers of earlier starts -/

/-- Of the dispatchers of the starts that succeeded, only the last may
still be there. -/
def StartHistory.Past (s : Client) (h : StartHistory) : Prop :=
  ∀ r ∈ h.succeeded, s.settled.1 = some r ∨ s.place (.dispatcher r) = some .finished

/-- The calls of `stop` that have been at the lock: of the dispatchers
of the starts before them, all but the one they join are over. -/
def RunHistory.Stops (s : Client) (h : RunHistory) : Prop :=
  ∀ c t r, s.threads (.call c) = some t → t.op = .stop → t.pc ≠ .stopEnter → r ∈ h.before c →
    t.caller ≠ some r → t.pc.found = some r ∨ s.place (.dispatcher r) = some .finished

section Stops

variable {P : Platform} {config : Config} {o : Owner} {caller nested : Option Nat}
  {choice : Choice} {s s' : Client} {l : ClientLabel} {pc pc' : Pc} {r : Nat}

theorem StartHistory.Past.step {h : StartHistory} (hp : h.Past s) (hs : s.RunsWf) (hwf : s.Wf)
    (hmove : ClientMove P config s l s') : (h.record s l s').Past s' := by
  intro r hr
  rcases (h.mem_record s s' l).mp hr with hold | hnew
  · rcases hp r hold with hsettled | hfinished
    · cases hcommits : s.commits l with
      | false => exact .inl (by rw [hs.settled_step hwf hmove hcommits, hsettled])
      | true =>
        -- the start that succeeds had waited for it
        obtain ⟨-, a, -, ha, -⟩ := hs.commit hwf hmove hcommits
        rcases s.attempt_cases with hnone | ⟨o, pc, b, hplace, hpc, hb⟩
        · rw [ha] at hnone
          cases hnone
        · rw [Client.settled_of_attempt hb] at hsettled
          have hfinished := (hs.attempt o pc b hplace hpc).previous r hsettled
          exact .inr (hwf.finished_stays hmove hfinished)
    · exact .inr (hwf.finished_stays hmove hfinished)
  · rcases s.succeeding_cases l with ⟨-, hnone⟩ | ⟨hcommits, hrun⟩
    · rw [hnone] at hnew
      cases hnew
    · obtain ⟨-, a, -, ha, -, -, hsettled⟩ := hs.commit hwf hmove hcommits
      rw [hrun, ha] at hnew
      exact .inl (by rw [hsettled]; exact hnew)

/-- A thread that has found a run joins it, unless it has no dispatcher
any more. -/
theorem ThreadMove.finds (hmove : ThreadMove o caller nested choice s pc pc' s')
    (hfound : pc.found = some r) (hother : caller ≠ some r) :
    pc'.found = some r ∨ (s.runs r).thread = false ∨ s.finished r = true := by
  have hjoins : ∀ {r' : Nat}, s.joins caller r' = true → r' = r →
      (s.runs r).thread = false ∨ s.finished r = true := by
    rintro r' hjoins rfl
    unfold Client.joins at hjoins
    rw [decide_eq_false hother, Bool.or_false, Bool.or_eq_true, Bool.not_eq_true'] at hjoins
    exact hjoins
  cases hmove
  case quiet hquiet =>
    cases hquiet
    case startLook | stopLook => exact .inl hfound
    case startJoined hjoined => exact .inr (hjoins hjoined (Option.some.inj hfound))
    case stopJoined hjoined => exact .inr (hjoins hjoined (Option.some.inj hfound))
    case again hplace => rcases hplace with rfl | ⟨callback, x, rfl, -⟩ <;> cases hfound
    case leaves hplace =>
      rcases hplace with rfl | rfl | ⟨result, rfl⟩ | ⟨x, rfl⟩ | ⟨x, rfl⟩ | rfl <;> cases hfound
    all_goals cases hfound
  case invokes hplace =>
    rcases hplace with ⟨a, rfl, rfl, -⟩ | ⟨run, error, rfl, rfl, -⟩ | ⟨ending, rfl, rfl, -⟩ |
      ⟨rfl, rfl, -⟩ | ⟨j, rfl, rfl, -⟩ | ⟨rfl, rfl, -⟩
    case inr.inr.inl => exact .inl (by cases ending <;> exact hfound)
    all_goals cases hfound
  case reads hplace => rcases hplace with ⟨j, rfl, -⟩ | ⟨rfl, -⟩ <;> cases hfound
  case startFails hplace => rcases hplace with rfl | rfl <;> cases hfound
  case exhausts hplace => rcases hplace with rfl | ⟨result, rfl⟩ | rfl <;> cases hfound
  case halted ending native op result hreturned hcollect hafter =>
    cases ending with
    | stopped run =>
      obtain rfl : run = some r := hfound
      rw [Client.afterStop] at hafter
      split at hafter
      · obtain ⟨rfl, -⟩ := Prod.mk.inj hafter
        exact .inl rfl
      · rename_i hnot
        by_contra hno
        refine hnot ⟨?_, hother⟩
        by_contra hthread
        exact hno (.inr (.inl (Bool.eq_false_iff.mpr hthread)))
    | raised | finish => cases hfound
  all_goals cases hfound

/-- A `stop` takes the lock: it joins the dispatcher of the client's run,
if that has one. -/
theorem ThreadMove.stop_enters (hmove : ThreadMove o caller nested choice s .stopEnter pc' s') :
    s.lock = none ∧ ∀ r, s.callbackRun = some r → caller ≠ some r →
      pc'.found = some r ∨ (s.runs r).thread = false := by
  generalize hpc : Pc.stopEnter = pc at hmove
  cases hmove
  case quiet hquiet =>
    cases hquiet
    case idle hfree _ hended =>
      exact ⟨hfree, fun r hr hother => .inr ((hended r hr).resolve_right hother)⟩
    case stopJoin r' hfree hcurrent _ _ _ =>
      exact ⟨hfree, fun r hr _ => .inl (hcurrent.symm.trans hr)⟩
    case again hplace => rcases hplace with rfl | ⟨callback, x, rfl, -⟩ <;> cases hpc
    case leaves hplace =>
      rcases hplace with rfl | rfl | ⟨result, rfl⟩ | ⟨x, rfl⟩ | ⟨x, rfl⟩ | rfl <;> cases hpc
    all_goals cases hpc
  case stops hfree _ => exact ⟨hfree, fun r hr _ => .inl hr⟩
  case invokes hplace =>
    rcases hplace with ⟨a, rfl, -⟩ | ⟨run, error, rfl, -⟩ | ⟨ending, rfl, -⟩ |
      ⟨rfl, -⟩ | ⟨j, rfl, -⟩ | ⟨rfl, -⟩ <;> cases hpc
  case reads hplace => rcases hplace with ⟨j, rfl, -⟩ | ⟨rfl, -⟩ <;> cases hpc
  case startFails hplace => rcases hplace with rfl | rfl <;> cases hpc
  case exhausts hplace => rcases hplace with rfl | ⟨result, rfl⟩ | rfl <;> cases hpc
  all_goals cases hpc

/-- A run that has had a dispatcher and has no handle is over. -/
theorem Client.RunsWf.over (hs : s.RunsWf) (hthere : (s.place (.dispatcher r)).isSome = true)
    (hended : (s.runs r).thread = false ∨ s.finished r = true) :
    s.place (.dispatcher r) = some .finished := by
  rcases hended with hthread | hfinished
  · refine (hs.ended r hthread).resolve_left fun hnone => ?_
    rw [hnone] at hthere
    cases hthere
  · rw [Client.finished] at hfinished
    split at hfinished
    · rename_i t ht
      rw [Client.place_of_thread ht, of_decide_eq_true hfinished]
    · cases hfinished

theorem RunHistory.Stops.step {h : RunHistory} (hstops : h.Stops s) (hpast : h.starts.Past s)
    (hs : s.RunsWf) (hwf : s.Wf) (hmove : ClientMove P config s l s') :
    (h.record s l s').Stops s' := by
  intro c t' r ht' hop hpc' hr hother
  have hover : s.place (.dispatcher r) = some .finished →
      s'.place (.dispatcher r) = some .finished := hwf.finished_stays hmove
  cases hmove.call_came ht' with
  | kept ht hlabel _ =>
    have hbefore : (h.record s l s').before c = h.before c := by
      cases l with
      | thread o choice =>
        cases o with
        | call c' =>
          dsimp only [RunHistory.record]
          split
          · refine Function.update_of_ne (fun heq => hlabel choice ?_) _ _
            rw [heq]
          · rfl
        | dispatcher => rfl
      | native | invoke | collect | drop => rfl
    rw [hbefore] at hr
    exact (hstops c t' r ht hop hpc' hr hother).imp_right hover
  | @moved t choice pc' u hlabel ht hthread hafter =>
    subst hlabel hafter
    dsimp only at hop hpc' hother ⊢
    have hplace := Client.place_of_thread ht
    dsimp only [RunHistory.record] at hr
    rw [hplace] at hr
    by_cases henters : t.pc = .stopEnter
    · rw [henters] at hthread
      obtain ⟨hfree, hjoins⟩ := hthread.stop_enters
      rw [if_pos (by rw [henters]), Function.update_self] at hr
      rcases hpast r hr with hsettled | hfinished
      · rw [Client.settled_of_free hfree] at hsettled
        exact (hjoins r hsettled hother).imp_right fun hthread =>
          hover (hs.over (hs.current r hsettled) (.inl hthread))
      · exact .inr (hover hfinished)
    · rw [if_neg fun heq => henters (Option.some.inj heq)] at hr
      rcases hstops c t r ht hop henters hr hother with hfound | hfinished
      · exact (hthread.finds hfound hother).imp_right fun hended =>
          hover (hs.over (hs.found _ t.pc r hplace hfound) hended)
      · exact .inr (hover hfinished)
  | entered hlabel hafter =>
    subst hafter
    dsimp only at hop hpc'
    subst hop
    exact absurd rfl hpc'

end Stops

theorem stops_of_reach {P : Platform} {config : Config} {p : Client × RunHistory}
    {ok : Client × RunHistory → ClientLabel → Prop} (h : (runLts P config).Reach ok p) :
    p.2.starts.Past p.1 ∧ p.2.Stops p.1 := by
  refine Lts.Reach.recorded_invariant (I := fun s h => h.starts.Past s ∧
    RunHistory.Stops s h) ?_ ?_ h
  · rintro s ⟨native, callback, -, rfl⟩
    exact ⟨fun _ hr => (by cases hr), fun _ _ _ ht => (by cases ht)⟩
  · rintro s h l t - hs hstep ⟨hpast, hstops⟩
    have hwf := wf_of_reach hs
    have hruns := runsWf_of_reach hs
    exact ⟨hpast.step hruns hwf (hwf.move hstep), hstops.step hpast hruns hwf (hwf.move hstep)⟩

/-! ## Cancelled dispatchers -/

/-- The activation has been decided, against the dispatcher. -/
def CallbackActivation.cancelled (a : CallbackActivation) : Bool := a.ready && !a.active

def StartHistory.Cancels (s : Client) (h : StartHistory) : Prop :=
  ∀ r, (s.runs r).activation.cancelled = true → s.Abandoned h r

section Cancelled

variable {P : Platform} {config : Config} {o : Owner} {caller nested : Option Nat}
  {choice : Choice} {s s' : Client} {l : ClientLabel} {pc pc' : Pc} {r : Nat} {h : StartHistory}

theorem RunMove.cancels (hmove : RunMove o s s' pc r)
    (hcancelled : (s'.runs r).activation.cancelled = true)
    (hnot : (s.runs r).activation.cancelled ≠ true) :
    ∃ a, pc.attempt = some a ∧ (a.run = some r ∨ pc = .startBuild a ∧ r = s.made) := by
  cases hmove with
  | same hsame => exact absurd (hsame ▸ hcancelled) hnot
  | built hplace hnew => exact ⟨_, by rw [hplace]; rfl, .inr ⟨hplace, hnew⟩⟩
  | cancelled hattempt hrun => exact ⟨_, hattempt, .inl hrun⟩
  | activated _ _ hrecord =>
    rw [hrecord] at hcancelled
    cases hcancelled
  | cleared _ _ hrecord | stored _ _ _ hrecord | faulted _ _ hrecord | finished _ _ hrecord =>
    rw [hrecord] at hcancelled
    exact absurd hcancelled hnot

/-- A step that cancels an activation gives the attempt up. -/
theorem ThreadMove.cancels (hmove : ThreadMove o caller nested choice s pc pc' s')
    (hcancelled : (s'.runs r).activation.cancelled = true)
    (hnot : (s.runs r).activation.cancelled ≠ true) :
    pc'.attempt = none ∧ ((∃ a, pc = .startBuild a) ∧ s'.made = s.made + 1 ∨
      (∃ a, pc = .startThread a) ∨ ∃ a error, pc = .startRollback a error) := by
  obtain ⟨a, hattempt, -⟩ := (hmove.runs r).cancels hcancelled hnot
  have hkept : (s'.runs r).activation = (s.runs r).activation → False := fun heq =>
    hnot (heq ▸ hcancelled)
  have hupdated : ∀ (u : Client) (new : Nat) (run : CallbackRun), u.runs = s.runs →
      s'.runs = (u.setRun new run).runs → run.activation.cancelled = false → False := by
    intro u new run hu hruns hrun
    by_cases hr : r = new
    · rw [hruns, hr, Client.setRun_self, hrun] at hcancelled
      cases hcancelled
    · exact hkept (by rw [hruns, Client.setRun_of_ne _ _ hr, hu])
  cases hmove
  case builds => exact (hupdated { s with made := s.made + 1 } s.made _ rfl rfl rfl).elim
  case activates new _ _ => exact (hupdated s new _ rfl rfl rfl).elim
  case activateFailsLate new _ _ _ => exact (hupdated s new _ rfl rfl rfl).elim
  case buildFailsLate => exact ⟨rfl, .inl ⟨⟨_, rfl⟩, rfl⟩⟩
  case launchFails | launchFailsLate => exact ⟨rfl, .inr (.inl ⟨_, rfl⟩)⟩
  case rollsBack => exact ⟨rfl, .inr (.inr ⟨_, _, rfl⟩)⟩
  all_goals first | exact (hkept rfl).elim | cases hattempt

theorem Client.commits_where (hcommits : s.commits (.thread o choice) = true) :
    ∃ a, s.place o = some (.startInstall a) ∨ s.place o = some (.startActivate a) := by
  cases choice with
  | go =>
    rw [Client.commits] at hcommits
    split at hcommits
    · exact ⟨_, .inl (by assumption)⟩
    · exact ⟨_, .inr (by assumption)⟩
    · cases hcommits
  | _ => cases hcommits

theorem StartHistory.Cancels.step (hc : h.Cancels s) (hr : h.Runs s) (hs : s.RunsWf) (hwf : s.Wf)
    (hmove : ClientMove P config s l s') : (h.record s l s').Cancels s' := by
  intro r hcancelled
  by_cases hbefore : (s.runs r).activation.cancelled = true
  · exact (hc r hbefore).step hwf hmove
  -- it is cancelled in this step
  cases hmove with
  | @thread o choice t pc' u ht hthread =>
    have hmove' : ClientMove P config s (.thread o choice)
      (u.setThread o (some { t with pc := pc' })) :=
      .thread ht hthread
    have hplace := Client.place_of_thread ht
    obtain ⟨a, hattempt, hcases⟩ := (hthread.runs r).cancels hcancelled hbefore
    obtain ⟨hgives, hpc⟩ := hthread.cancels hcancelled hbefore
    have hlock := hwf.owner o t.pc hplace (Pc.holds_of_attempt hattempt)
    have hnone : (u.setThread o (some { t with pc := pc' })).attempt = none := by
      have hplace' : (u.setThread o (some { t with pc := pc' })).place o = some pc' := by
        rw [Client.setThread_place, Function.update_self]
        rfl
      have hmine : u.lock = some o → (u.setThread o (some { t with pc := pc' })).attempt
        = none := by
        intro hlock'
        rw [Client.attempt, show (u.setThread o (some { t with pc := pc' })).lock = _ from hlock',
          Option.bind_some, hplace']
        exact hgives
      cases hthread.lock with
      | outside hout => rw [Pc.holds_of_attempt hattempt] at hout; cases hout
      | takes hout => rw [Pc.holds_of_attempt hattempt] at hout; cases hout
      | inside _ _ hsame => exact hmine (hsame.elim (fun heq => heq.trans hlock) id)
      | gives _ _ hfree =>
        rw [Client.attempt, show (u.setThread o (some { t with pc := pc' })).lock = _ from hfree]
        rfl
    have hnot : s.commits (.thread o choice) = false := by
      rw [Bool.eq_false_iff]
      intro hcommits
      obtain ⟨c, hwhere⟩ := Client.commits_where hcommits
      rw [hplace] at hwhere
      rcases hpc with ⟨⟨b, hpc⟩, -⟩ | ⟨b, hpc⟩ | ⟨b, error, hpc⟩ <;> rw [hpc] at hwhere <;>
        rcases hwhere with hwhere | hwhere <;> cases hwhere
    have hends : ∀ b, (u.setThread o (some { t with pc := pc' })).attempt = some b →
        b.run ≠ some r := by
      intro b hb
      rw [hnone] at hb
      cases hb
    rcases hcases with hrun | ⟨hbuild, rfl⟩
    · exact hr.abandons hs hwf hmove' (hwf.attempt_of_place hplace hattempt) hrun hnot hends
    · -- the record of a thread that could not be built
      have hmade : u.made = s.made + 1 := by
        rcases hpc with ⟨-, hmade⟩ | ⟨b, hpc⟩ | ⟨b, error, hpc⟩
        · exact hmade
        · rw [hbuild] at hpc
          cases hpc
        · rw [hbuild] at hpc
          cases hpc
      refine ⟨?_, ?_, hends⟩
      · rw [show (u.setThread o (some { t with pc := pc' })).made = _ from hmade]
        exact Nat.lt_succ_self _
      · intro hmem
        rcases (h.mem_record s _ _).mp hmem with hold | hnew
        · exact Nat.lt_irrefl _ (hr.bound _ hold)
        · rw [Client.succeeding, hnot] at hnew
          cases hnew
  | native | invoke | nest | collect | unnest | drop => exact absurd hcancelled hbefore

end Cancelled

theorem cancels_of_reach {P : Platform} {config : Config} {p : Client × StartHistory}
    {ok : Client × StartHistory → ClientLabel → Prop} (hreach : (startLts P config).Reach ok p) :
    p.2.Cancels p.1 := by
  refine Lts.Reach.invariant_using (K := fun p => p.2.Sound p.1) (I := fun p => p.2.Cancels p.1)
    (fun p hp => StartHistory.sound_of_reach hp) ?_ ?_ hreach
  · rintro ⟨s, h⟩ ⟨⟨native, callback, -, hs⟩, rfl⟩
    obtain rfl : s = _ := hs
    exact fun _ hcancelled => (by cases hcancelled)
  · rintro ⟨s, h⟩ l ⟨s', h'⟩ - hstep hsound - hc
    obtain ⟨hmove, hrecord⟩ := hsound.move hstep
    dsimp only at hrecord hsound hc hmove ⊢
    subst hrecord
    exact hc.step hsound.runs hsound.runsWf hsound.wf hmove

/-! ## The contract -/

section Contract

variable {P : Platform} {config : Config} {p q : Client × RunHistory} {r r' : Nat}
  {ls : List ClientLabel} {ok : Client × RunHistory → ClientLabel → Prop}

/-- A dispatcher that has ended stays so. -/
theorem RunHistory.finished_stays (hp : (runLts P config).Reachable p)
    (hplace : p.1.place (.dispatcher r) = some .finished)
    (hpath : (runLts P config).Path ok p ls q) : q.1.place (.dispatcher r) = some .finished := by
  refine hpath.preserves (K := fun p => p.1.Wf)
    (I := fun p => p.1.place (.dispatcher r) = some .finished)
    (fun p hp => wf_of_reach hp.unrecorded) ?_ hp hplace
  rintro p l q - hstep hwf - hfinished
  exact hwf.finished_stays (hwf.move (Lts.recorded_step hstep).1) hfinished

/-- An abandoned dispatcher stays so. -/
theorem RunHistory.abandoned_stays (hp : (runLts P config).Reachable p)
    (hab : p.1.Abandoned p.2.starts r) (hpath : (runLts P config).Path ok p ls q) :
    q.1.Abandoned q.2.starts r := by
  refine hpath.preserves (K := fun p => p.1.Wf) (I := fun p => p.1.Abandoned p.2.starts r)
    (fun p hp => wf_of_reach hp.unrecorded) ?_ hp hab
  rintro p l q - hstep hwf - hab
  obtain ⟨hclient, hrecord⟩ := Lts.recorded_step hstep
  rw [hrecord]
  exact hab.step hwf (hwf.move hclient)

/-- One callback is running at a time. -/
theorem Client.RunsWf.serial {s : Client} (hs : s.RunsWf) {pc pc' : Pc}
    (hplace : s.place (.dispatcher r) = some pc) (hpc : pc.engaged = true)
    (hplace' : s.place (.dispatcher r') = some pc') (hpc' : pc'.engaged = true) : r = r' := by
  have hcurrent := (hs.engaged r pc hplace hpc).1
  rw [(hs.engaged r' pc' hplace' hpc').1] at hcurrent
  exact (Option.some.inj hcurrent).symm

/-- While a start is under way, the dispatchers of all that succeeded are
over. -/
theorem StartHistory.Past.before_start {s : Client} {h : StartHistory} (hpast : h.Past s)
    (hs : s.RunsWf) (hwf : s.Wf) {o : Owner} {pc : Pc} {a : Attempt} (hplace : s.place o = some pc)
    (hpc : pc.attempt = some a) (hr : r ∈ h.succeeded) :
    s.place (.dispatcher r) = some .finished := by
  rcases hpast r hr with hsettled | hfinished
  · rw [Client.settled_of_attempt (hwf.attempt_of_place hplace hpc)] at hsettled
    exact (hs.attempt o pc a hplace hpc).previous r hsettled
  · exact hfinished

/-- **User code sees its own run.** A callback is called, and an iterator
yields, with samples that were pushed in the native run of its own start
and in no other. One callback is running at a time, and none while a start
is under way: the dispatchers of all starts before it are over. When a
`stop` has returned, so are for good those of the starts that it found,
unless the dispatcher itself has made the call. A dispatcher whose
activation was cancelled never does anything outside the client. -/
theorem user_code_sees_its_own_run (hp : (runLts P config).Reachable p) :
    (∀ r callback x, p.1.place (.dispatcher r) = some (.calling callback x) →
      r ∈ p.2.starts.succeeded ∧ p.2.Pushed p.1 (p.1.runs r).token x) ∧
    (∀ c t i x, p.1.threads (.call c) = some t → t.op = .next i → t.pc = .returned (.sample x) →
      p.2.Pushed p.1 (p.1.iterators i).token x) ∧
    (∀ r r' callback callback' x x', p.1.place (.dispatcher r) = some (.calling callback x) →
      p.1.place (.dispatcher r') = some (.calling callback' x') → r = r') ∧
    (∀ o pc a, p.1.place o = some pc → pc.attempt = some a →
      (∀ r callback x, p.1.place (.dispatcher r) ≠ some (.calling callback x)) ∧
      ∀ r ∈ p.2.starts.succeeded, p.1.place (.dispatcher r) = some .finished) ∧
    (∀ c t result, p.1.threads (.call c) = some t → t.op = .stop → t.pc = .returned result →
      ∀ r ∈ p.2.before c, t.caller ≠ some r →
        ∀ ls q, (runLts P config).Path (fun _ _ => True) p ls q →
          q.1.place (.dispatcher r) = some .finished) ∧
    ∀ r, (p.1.runs r).activation.cancelled = true →
      ∀ ls q, (runLts P config).Path (fun _ _ => True) p ls q →
        q.2.starts.acts (.dispatcher r) = [] := by
  have hk : p.1.Known P config := Client.known_of_reach hp.unrecorded
  have hown := own_of_reach hp
  have hsamples := samplesWf_of_reach hp.unrecorded
  obtain ⟨hpast, hstops⟩ := stops_of_reach hp
  have hstarts := StartHistory.runs_of_reach (startLts_of_runLts hp)
  refine ⟨?_, ?_, ?_, ?_, ?_, ?_⟩
  · intro r callback x hplace
    have hin : p.1.InRun (.calling callback x) := rfl
    refine ⟨?_, RunHistory.pushed_of_took hk (hown.engaged r _ hplace rfl)
      (hsamples.hand _ _ x hplace rfl hin)⟩
    by_contra hfailed
    have hidle := hstarts.idle r _ hfailed hplace
    cases hidle
  · intro c t i x ht hop hpc
    obtain ⟨g, hg, htook⟩ := hown.yielded c t i x ht hop hpc
    exact RunHistory.pushed_of_took hk hg htook
  · intro r r' callback callback' x x' hplace hplace'
    exact hk.runsWf.serial hplace rfl hplace' rfl
  · intro o pc a hplace hpc
    constructor
    · intro r callback x hcalling
      have hnot := (hk.runsWf.engaged r _ hcalling rfl).2.2 o pc hplace
      rw [Pc.starting_of_attempt hpc] at hnot
      cases hnot
    · intro r hr
      exact hpast.before_start hk.runsWf hk.wf hplace hpc hr
  · intro c t result ht hop hpc r hr hother ls q hpath
    rcases hstops c t r ht hop (by rw [hpc]; nofun) hr hother with hfound | hfinished
    · rw [hpc] at hfound
      cases hfound
    · exact RunHistory.finished_stays hp hfinished hpath
  · intro r hcancelled ls q hpath
    have hab := cancels_of_reach (startLts_of_runLts hp) r hcancelled
    have hab' := RunHistory.abandoned_stays hp hab hpath
    exact (StartHistory.runs_of_reach (startLts_of_runLts (hpath.reachable hp))).acts r hab'.failed

end Contract

/-- A callback is called with the sample of its run; it raises, and a
`stop` from outside finds its dispatcher over. -/
theorem user_code_sees_its_own_run_stopped :
    (∃ p x, (runLts exactPlatform overrideConfig).Reachable p ∧
      p.1.place (.dispatcher 0) = some (.calling 5 x) ∧
      p.2.Pushed p.1 (p.1.runs 0).token x) ∧
    ∃ p, (runLts exactPlatform overrideConfig).Reachable p ∧
      p.1.place (.call 2) = some (.returned .done) ∧ p.2.before 2 = [0] ∧
      p.1.place (.dispatcher 0) = some .finished := by
  have hinit : (runLts exactPlatform overrideConfig).Reachable
    (overrideClient overrideConfig, {}) :=
    Lts.Reachable.init ⟨⟨_, none, ⟨1000, 4, _, overrideConfig_valid, rfl, rfl⟩, rfl⟩, rfl⟩
  constructor
  · obtain ⟨p, hp, hfacts⟩ := Lts.exists_of_exec hinit
      (l := callbackStart ++ dispatcherDelivers (List.replicate 36 0))
      (p := fun p : Client × RunHistory => decide
        ((p.1.place (.dispatcher 0)).bind Pc.callback? = some 5))
      (by decide +kernel)
    obtain ⟨x, hcalling⟩ := Client.calling_of_callback (of_decide_eq_true hfacts)
    exact ⟨p, x, hp, hcalling, ((user_code_sees_its_own_run hp).1 0 5 x hcalling).2⟩
  · obtain ⟨p, hp, hfacts⟩ := Lts.exists_of_exec hinit
      (l := callbackStart ++ dispatcherDelivers (List.replicate 36 0) ++
        [.thread (.dispatcher 0) (.raises 7)] ++ callbackFails ++ [.invoke 2 none .stop] ++
        proceed (.call 2) 4)
      (p := fun p : Client × RunHistory => decide (p.2.before 2 = [0] ∧
        (p.1.threads (.call 2)).map (fun t => (t.caller, t.op, t.pc)) =
          some (none, .stop, .returned .done)))
      (by decide +kernel)
    obtain ⟨hbefore, hcall⟩ := of_decide_eq_true hfacts
    obtain ⟨t, ht, heq⟩ := Option.map_eq_some_iff.mp hcall
    obtain ⟨hcaller, hop, hpc⟩ : t.caller = none ∧ t.op = .stop ∧ t.pc = .returned .done := by
      simpa using heq
    refine ⟨p, hp, by rw [Client.place_of_thread ht, hpc], hbefore, ?_⟩
    exact (user_code_sees_its_own_run hp).2.2.2.2.1 2 t .done ht hop hpc 0 (by rw [hbefore]; decide)
      (by rw [hcaller]; nofun) [] p (.nil _)

end PyNetFT.Python
