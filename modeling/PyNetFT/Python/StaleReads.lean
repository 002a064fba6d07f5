/-
PyNetFT.Python.StaleReads — what an iterator of an earlier run can take.

An iterator checks its token under the lock, gives the lock back and then
calls the native `read`, which notes the generation of the queue by
itself. When a `stop` and a `start` come in between, the read belongs to
the later run and takes a sample from it; the second check throws the
sample away. As long as every read of an iterator notes the generation in
time, what is taken from a run is for its own consumer.

The history keeps, for every sample that a native read has taken, the
token the read was made for and the generation of the native run.
-/
import PyNetFT.Python.OwnRuns
import PyNetFT.Bindings.ReadGenerations

namespace PyNetFT.Python

open PyNetFT.Lib PyNetFT.Core PyNetFT.Bindings

/-! ## The history -/

/-- The thread behind a native call. -/
def Owner.ofNativeId (n : Nat) : Owner :=
  if n % 2 = 0 then .call (n / 2) else .dispatcher (n / 2)

/-- The token a thread reads for: that of its iterator, or of its run. -/
def Client.readToken (s : Client) (o : Owner) : Option Nat :=
  match o, s.place o with
  | .call _, some (.nextAwait i) => some (s.iterators i).token
  | .dispatcher r, some .awaitRead => some (s.runs r).token
  | _, _ => none

/-- A sample that left the queue towards a reader. -/
structure Taken where
  token : Nat
  generation : Nat
  sample : Stamped
  deriving DecidableEq

/-- The sample that is taken in a step. -/
def Client.takes (s : Client) (l : ClientLabel) (s' : Client) : Option Taken :=
  match l with
  | .native (.call n) =>
      (NativeLabel.gets (.call n) s'.native).bind fun x =>
        (s.readToken (.ofNativeId n)).map fun token => ⟨token, s.native.run.generation, x⟩
  | _ => none

structure ReadHistory where
  runs : RunHistory := {}
  taken : List Taken := []

def ReadHistory.record (h : ReadHistory) (s : Client) (l : ClientLabel) (s' : Client) :
    ReadHistory :=
  { runs := h.runs.record s l s'
    taken := h.taken ++ (s.takes l s').toList }

/-- The client with that history. -/
def readLts (P : Platform) (config : Config) : Lts (Client × ReadHistory) ClientLabel :=
  (clientLts P config).recorded {} ReadHistory.record

/-- What native reads have taken for the consumers of the start with the
native run `g`. It left the queue for one of them. An iterator whose run
is stopped between its read and its second check still throws the sample
away and ends. -/
def ReadHistory.takenFor (h : ReadHistory) (g : Nat) : List Stamped :=
  (h.taken.filter fun t => decide (h.runs.generation t.token = some g)).map Taken.sample

/-! ## Reads in time -/

/-- The iterator whose native read notes the generation in this step. -/
def Client.captures (s : Client) (l : ClientLabel) : Option Nat :=
  match l with
  | .native (.call n) =>
      match s.native.calls n, s.place (.ofNativeId n) with
      | some ⟨_, .readCapture _⟩, some (.nextAwait i) => some i
      | _, _ => none
  | _ => none

/-- A native `start` has closed the queue and not reset it yet. -/
def Client.resetting (s : Client) : Bool :=
  match s.native.lock.bind s.native.calls with
  | some call => decide (call.pc = .startReset)
  | none => false

/-- Where the read of an iterator notes the generation, no native `start`
is between its `close` and its `reset`, and the queue is closed or the
native client is still in the run of the iterator's own start. -/
def ReadHistory.Timely (p : Client × ReadHistory) (l : ClientLabel) : Prop :=
  ∀ i, p.1.captures l = some i → p.1.resetting = false ∧
    (p.1.native.queue.isClosed = true ∨
      p.2.runs.generation (p.1.iterators i).token = some p.1.native.run.generation)

theorem runLts_of_readLts {P : Platform} {config : Config} {p : Client × ReadHistory}
    {ok : Client × ReadHistory → ClientLabel → Prop} (h : (readLts P config).Reach ok p) :
    (runLts P config).Reachable (p.1, p.2.runs) := by
  refine Lts.Reach.invariant
    (I := fun p : Client × ReadHistory => (runLts P config).Reachable (p.1, p.2.runs)) ?_ ?_ h
  · rintro ⟨s, h⟩ ⟨hs, rfl⟩
    exact Lts.Reachable.init ⟨hs, rfl⟩
  · rintro ⟨s, h⟩ l ⟨s', h'⟩ - hstep hs
    obtain ⟨hclient, hrecord⟩ := Lts.recorded_step hstep
    dsimp only at hclient hrecord hs
    subst hrecord
    exact hs.step (l := l) (by simp [runLts, Lts.recorded, hclient, ReadHistory.record])

/-! ## The generations in hand -/

/-- The generations that the reads of iterators have noted are bound to
the native runs of their own starts. -/
def ReadHistory.Held (s : Client) (h : ReadHistory) : Prop :=
  ∀ c i call g, s.place (.call c) = some (.nextAwait i) →
    s.native.calls (Owner.call c).nativeId = some call → call.pc.captured = some g →
    s.native.Bound g (h.runs.generation (s.iterators i).token)

section Held

variable {P : Platform} {config : Config} {o : Owner} {s s' : Client} {l : ClientLabel} {n i : Nat}
  {h : ReadHistory} {x : Stamped}

theorem Owner.ofNativeId_nativeId (o : Owner) : Owner.ofNativeId o.nativeId = o := by
  cases o with
  | call c => simp [Owner.ofNativeId, Owner.nativeId]
  | dispatcher r =>
    have hodd : (2 * r + 1) % 2 ≠ 0 := by omega
    have hhalf : (2 * r + 1) / 2 = r := by omega
    rw [Owner.nativeId, Owner.ofNativeId, if_neg hodd, hhalf]

theorem Client.Known.not_resetting (hk : s.Known P config) (hnone : s.resetting = false)
    {call : NativeCall}
    (hcall : s.native.calls n = some call) : call.pc ≠ .startReset := by
  intro hpc
  have hlock := ((callsWf_of_reachable hk.native).owner n).mpr ⟨call, hcall, by rw [hpc]; rfl⟩
  rw [Client.resetting, hlock, Option.bind_some, hcall] at hnone
  exact of_decide_eq_false hnone hpc

/-- What the noted runs say about tokens that are in use. -/
theorem RunHistory.generation_old {h : RunHistory} {k : Nat} (hk : k ≤ s.settled.2) :
    (h.record s l s').generation k = h.generation k := by
  rcases h.generation_record s s' l with ⟨-, hsame⟩ | ⟨-, hnew⟩
  · rw [hsame]
  · rw [hnew, Function.update_of_ne (Nat.ne_of_lt (Nat.lt_succ_of_le hk))]

/-- An iterator that waits for its read keeps its token, and what is noted
under it. -/
theorem Client.Known.generation_kept {h : RunHistory} (hk : s.Known P config)
    (hmove : ClientMove P config s l s')
    (hmade : i < s.madeIterators) :
    (h.record s l s').generation (s'.iterators i).token = h.generation (s.iterators i).token := by
  have htoken : (s'.iterators i).token = (s.iterators i).token := by
    rcases hmove.iterators with ⟨-, hkept⟩ | ⟨-, -, -, hkept⟩
    · exact hkept i
    · exact hkept i (Nat.ne_of_lt hmade)
  rw [htoken, RunHistory.generation_old (hk.iterators i hmade)]

theorem ReadHistory.Held.step (hh : h.Held s) (hk : s.Known P config)
    (hmove : ClientMove P config s l s') (htimely : ReadHistory.Timely (s, h) l) :
    (h.record s l s').Held s' := by
  intro c i call g hplace hcall hg
  cases hmove.placed hplace with
  | kept hother hbefore =>
    have hmade := hk.reader_made hbefore rfl
    rw [show (h.record s l s').runs = h.runs.record s l s' from rfl, hk.generation_kept hmove hmade]
    have hbound : s.native.Bound g (h.runs.generation (s.iterators i).token) := by
      rcases hmove.native_call hother with hsame | ⟨hl, hstep⟩
      · rw [hsame] at hcall
        exact hh c i call g hbefore hcall hg
      · obtain ⟨before, hcall', hcases⟩ := Native.step_captured hstep hcall hg
        rcases hcases with hheld | ⟨⟨timeout, hpc⟩, rfl⟩
        · exact hh c i before g hbefore hcall' hheld
        · -- the read notes the generation in this step
          have hcaptures : s.captures l = some i := by
            obtain ⟨op, pc⟩ := before
            dsimp only at hpc
            rw [hl, Client.captures, Owner.ofNativeId_nativeId, hcall', hbefore, hpc]
          obtain ⟨hresetting, hopen⟩ := htimely i hcaptures
          exact .inr ⟨rfl, fun n start hstart => hk.not_resetting hresetting hstart, hopen⟩
    rcases hmove.native_step with hsame | ⟨k, hstep, -⟩
    · rw [hsame]
      exact hbound
    · exact hbound.step hstep
  | moved ht hthread hstate =>
    rw [hstate] at hcall
    cases hthread.native with
    | @invoked op' _ _ hinvoke =>
      -- a read that has just been called has noted nothing
      have hentry := Option.some.inj ((Native.invoke_calls hinvoke).symm.trans hcall)
      rw [← hentry] at hg
      cases op' <;> cases hg
    | same _ hafter _ | collected _ hafter _ => cases hafter
    | asked _ hafter | told _ hafter => cases hafter
  | @entered _ op _ hentry => cases op <;> cases hentry
  | built _ hentry | launched _ hentry => cases hentry

end Held

theorem held_of_reach {P : Platform} {config : Config} {p : Client × ReadHistory}
    (h : (readLts P config).Reach ReadHistory.Timely p) : p.2.Held p.1 := by
  refine Lts.Reach.recorded_invariant (I := fun s h => ReadHistory.Held s h) ?_ ?_ h
  · rintro s ⟨native, callback, -, rfl⟩
    exact fun _ _ _ _ hplace => (by cases hplace)
  · intro s h l t htimely hs hstep hh
    have hk : s.Known P config := Client.known_of_reach hs
    exact hh.step hk (hk.wf.move hstep) htimely

/-! ## What was taken -/

/-- The taken samples by native runs are those that the native client has
booked. -/
structure ReadHistory.Booked (s : Client) (h : ReadHistory) : Prop where
  bound : ∀ t ∈ h.taken, t.generation ≤ s.native.run.generation
  took : ∀ t ∈ h.taken, s.native.Took t.generation t.sample
  runs : ∀ run ∈ s.native.runs,
    (h.taken.filter fun t => decide (t.generation = run.generation)).map Taken.sample = run.taken

/-- Every sample was taken for a consumer of the run it was taken in. -/
def ReadHistory.OwnTaken (h : ReadHistory) : Prop :=
  ∀ t ∈ h.taken, h.runs.generation t.token = some t.generation

section Taken

variable {P : Platform} {config : Config} {o : Owner} {s s' : Client} {l : ClientLabel} {n i : Nat}
  {h : ReadHistory} {x : Stamped} {t : Taken}

theorem Client.readToken_call {c : Nat} (hplace : s.place (.call c) = some (.nextAwait i)) :
    s.readToken (.call c) = some (s.iterators i).token := by
  unfold Client.readToken
  rw [hplace]

theorem Client.readToken_dispatcher {r : Nat} (hplace : s.place (.dispatcher r) = some .awaitRead) :
    s.readToken (.dispatcher r) = some (s.runs r).token := by
  unfold Client.readToken
  rw [hplace]

/-- A native call that gets a sample is the read of an iterator or of a
dispatcher. -/
theorem Client.Known.reads (hk : s.Known P config) {native : Native}
    (hstep : s.native.step P config (.call n) = some native)
    (hgets : NativeLabel.gets (.call n) native = some x) :
    ∃ o call g, n = o.nativeId ∧ s.native.calls n = some call ∧ call.pc.captured = some g ∧
      s.native.queue.isClosed = false ∧ s.native.queue.closeGeneration = g ∧
      ((∃ c i, o = .call c ∧ s.place o = some (.nextAwait i)) ∨
        ∃ r, o = .dispatcher r ∧ s.place o = some .awaitRead) := by
  obtain ⟨call', hcall', hgot⟩ := Option.bind_eq_some_iff.mp hgets
  obtain ⟨g, hreturned⟩ := NativePc.got_some hgot
  obtain ⟨hfree, hcurrent, -⟩ := read_takes hstep hcall' hreturned
  obtain ⟨call, hcall, hheld, hpart, hpending⟩ := read_held hstep hcall' hreturned
  obtain ⟨o, pc, hn, hplace, hawaits⟩ := hk.wf.called n call hcall
  refine ⟨o, call, g, hn, hcall, hheld, hfree, hcurrent, ?_⟩
  have hread : call.op.entry.part = .read := by
    rcases fitsWf_of_reachable hk.native n call hcall with hfits | ⟨result, hreturned⟩
    · exact hfits.symm.trans hpart
    · exact absurd hreturned (hpending result)
  rw [hread] at hawaits
  have hfits := hk.wf.fits o pc hplace
  cases pc <;> cases hawaits
  case nextAwait i =>
    cases o with
    | call c => exact .inl ⟨c, i, rfl, hplace⟩
    | dispatcher r =>
      have hbad := hfits.mpr ⟨r, rfl⟩
      cases hbad
  case awaitRead =>
    obtain ⟨r, rfl⟩ := hfits.mp rfl
    exact .inr ⟨r, rfl, hplace⟩

/-- What a step notes is what it takes. -/
theorem Client.Known.taking (hk : s.Known P config) (hmove : ClientMove P config s l s') :
    (s'.native = s.native ∧ s.takes l s' = none) ∨
      ∃ k, s.native.step P config k = some s'.native ∧
        (s.takes l s').map Taken.sample = k.gets s'.native := by
  have hquiet : (∀ k, l ≠ .native k) → s.takes l s' = none := by
    intro hl
    cases l with
    | native k => exact absurd rfl (hl k)
    | _ => rfl
  by_cases hnative : ∃ k, l = .native k
  · obtain ⟨k, rfl⟩ := hnative
    cases hmove with
    | @native _ native hforeign hstep =>
      refine .inr ⟨k, hstep, ?_⟩
      cases k with
      | call n =>
        rw [Client.takes]
        cases hgets : NativeLabel.gets (.call n) native with
        | none => rfl
        | some x =>
          obtain ⟨o, -, -, rfl, -, -, -, -, hreader⟩ := hk.reads hstep hgets
          rw [Option.bind_some, Owner.ofNativeId_nativeId]
          rcases hreader with ⟨c, i, rfl, hplace⟩ | ⟨r, rfl, hplace⟩
          · rw [Client.readToken_call hplace]
            rfl
          · rw [Client.readToken_dispatcher hplace]
            rfl
      | _ => rfl
  · have hl : ∀ k, l ≠ .native k := fun k heq => hnative ⟨k, heq⟩
    rcases hmove.native_step with hsame | ⟨k, hstep, hcalls⟩
    · exact .inl ⟨hsame, hquiet hl⟩
    · refine .inr ⟨k, hstep, ?_⟩
      rw [hquiet hl]
      cases k with
      | call n => exact absurd (hcalls n rfl) (hl _)
      | _ => rfl

theorem Client.takes_some (htakes : s.takes l s' = some t) :
    ∃ n x, l = .native (.call n) ∧ NativeLabel.gets (.call n) s'.native = some x ∧
      s.readToken (.ofNativeId n) = some t.token ∧ t.generation = s.native.run.generation := by
  unfold Client.takes at htakes
  split at htakes
  · rename_i n
    obtain ⟨x, hx, hmap⟩ := Option.bind_eq_some_iff.mp htakes
    obtain ⟨token, htoken, rfl⟩ := Option.map_eq_some_iff.mp hmap
    exact ⟨n, x, rfl, hx, htoken, rfl⟩
  · cases htakes

theorem ReadHistory.mem_taken (ht : t ∈ (h.record s l s').taken) :
    t ∈ h.taken ∨ s.takes l s' = some t := by
  rcases List.mem_append.mp ht with hold | hnew
  · exact .inl hold
  · exact .inr (Option.mem_toList.mp hnew)

theorem ReadHistory.Booked.step (hb : h.Booked s) (hk : s.Known P config)
    (hmove : ClientMove P config s l s') : (h.record s l s').Booked s' := by
  have htaken : (h.record s l s').taken = h.taken ++ (s.takes l s').toList := rfl
  rcases hk.taking hmove with ⟨hsame, hnone⟩ | ⟨k, hstep, hgets⟩
  · rw [hnone, Option.toList_none, List.append_nil] at htaken
    refine ⟨?_, ?_, ?_⟩ <;> rw [htaken, hsame]
    · exact hb.bound
    · exact hb.took
    · exact hb.runs
  rcases Native.step_taken hk.native hstep with ⟨hhistory, hgeneration, hrun⟩ |
    ⟨hnone, hhistory, hlater, hrun⟩
  · -- the current run goes on
    refine ⟨fun t ht => ?_, fun t ht => ?_, fun run hmem => ?_⟩
    · rw [hgeneration]
      rcases ReadHistory.mem_taken ht with hold | hnew
      · exact hb.bound t hold
      · obtain ⟨-, -, -, -, -, heq⟩ := Client.takes_some hnew
        exact heq.le
    · rcases ReadHistory.mem_taken ht with hold | hnew
      · exact hmove.took (hb.took t hold)
      · obtain ⟨-, -, -, -, -, heq⟩ := Client.takes_some hnew
        refine ⟨s'.native.run, List.mem_append_right _ (List.mem_singleton_self _),
          hgeneration.trans heq.symm, ?_⟩
        rw [hrun, ← hgets, hnew]
        exact List.mem_append_right _ (List.mem_singleton_self _)
    · rw [htaken, List.filter_append, List.map_append]
      have hnew : ∀ t ∈ (s.takes l s').toList, t.generation = s.native.run.generation := by
        intro t ht
        obtain ⟨-, -, -, -, -, heq⟩ := Client.takes_some (Option.mem_toList.mp ht)
        exact heq
      rcases List.mem_append.mp hmem with hold | hcurrent
      · have hbefore := ((List.pairwise_append.mp (queueWf_of_reachable hk.native).ordered).2.2
          run (hhistory ▸ hold) s.native.run (List.mem_singleton_self _)).1
        have hnothing : ((s.takes l s').toList.filter
            fun t => decide (t.generation = run.generation)) = [] := by
          refine List.filter_eq_nil_iff.mpr fun t ht hbad => ?_
          rw [hnew t ht] at hbad
          exact absurd (of_decide_eq_true hbad) (Nat.ne_of_gt hbefore)
        rw [hnothing, List.map_nil, List.append_nil]
        exact hb.runs run (List.mem_append_left _ (hhistory ▸ hold))
      · obtain rfl := List.mem_singleton.mp hcurrent
        have hall : ((s.takes l s').toList.filter
            fun t => decide (t.generation = s'.native.run.generation)) = (s.takes l s').toList := by
          refine List.filter_eq_self.mpr fun t ht => ?_
          rw [hgeneration]
          exact decide_eq_true (hnew t ht)
        rw [hall, hgeneration, hb.runs s.native.run
          (List.mem_append_right _ (List.mem_singleton_self _)), hrun, ← hgets]
        cases s.takes l s' <;> rfl
  · -- another run begins
    have hquiet : s.takes l s' = none := by
      rw [hnone] at hgets
      exact Option.map_eq_none_iff.mp hgets
    rw [hquiet, Option.toList_none, List.append_nil] at htaken
    refine ⟨fun t ht => ?_, fun t ht => ?_, fun run hmem => ?_⟩
    · rw [htaken] at ht
      exact (hb.bound t ht).trans hlater.le
    · rw [htaken] at ht
      exact hmove.took (hb.took t ht)
    · rw [htaken]
      rcases List.mem_append.mp hmem with hold | hcurrent
      · rw [hhistory] at hold
        exact hb.runs run hold
      · obtain rfl := List.mem_singleton.mp hcurrent
        rw [hrun, List.map_eq_nil_iff, List.filter_eq_nil_iff]
        intro t ht hbad
        exact absurd (of_decide_eq_true hbad) (Nat.ne_of_lt ((hb.bound t ht).trans_lt hlater))

theorem ReadHistory.OwnTaken.step (ho : h.OwnTaken) (hheld : h.Held s) (hown : h.runs.Own s)
    (hok : h.runs.Ok s) (hk : s.Known P config) (hmove : ClientMove P config s l s') :
    (h.record s l s').OwnTaken := by
  intro t ht
  rcases ReadHistory.mem_taken ht with hold | hnew
  · exact hok.generation_stays (ho t hold)
  obtain ⟨n, x, rfl, hgets, htoken, hgeneration⟩ := Client.takes_some hnew
  refine hok.generation_stays ?_
  cases hmove with
  | @native _ native hforeign hstep =>
    obtain ⟨o, call, g, rfl, hcall, hnoted, hfree, hcurrent, hreader⟩ := hk.reads hstep hgets
    rw [Owner.ofNativeId_nativeId] at htoken
    rw [hgeneration]
    rcases hreader with ⟨c, i, rfl, hplace⟩ | ⟨r, rfl, hplace⟩
    · rw [Client.readToken_call hplace] at htoken
      rw [← Option.some.inj htoken]
      exact (hheld c i call g hplace hcall hnoted).takes hfree hcurrent
    · rw [Client.readToken_dispatcher hplace] at htoken
      rw [← Option.some.inj htoken]
      exact hown.engaged r _ hplace rfl

end Taken

theorem booked_of_reach {P : Platform} {config : Config} {p : Client × ReadHistory}
    {ok : Client × ReadHistory → ClientLabel → Prop} (h : (readLts P config).Reach ok p) :
    p.2.Booked p.1 := by
  refine Lts.Reach.recorded_invariant (I := fun s h => ReadHistory.Booked s h) ?_ ?_ h
  · rintro s ⟨native, callback, ⟨clock, capacity, queue, -, -, rfl⟩, rfl⟩
    refine ⟨fun _ ht => (by cases ht), fun _ ht => (by cases ht), fun run hrun => ?_⟩
    obtain rfl := List.mem_singleton.mp hrun
    rfl
  · intro s h l t _ hs hstep hb
    have hk : s.Known P config := Client.known_of_reach hs
    exact hb.step hk (hk.wf.move hstep)

theorem ownTaken_of_reach {P : Platform} {config : Config} {p : Client × ReadHistory}
    (h : (readLts P config).Reach ReadHistory.Timely p) : p.2.OwnTaken := by
  refine Lts.Reach.invariant_using
    (K := fun p => (p.2.Held p.1 ∧ p.2.runs.Own p.1) ∧ p.2.runs.Ok p.1 ∧ p.1.Known P config)
    (I := fun p => p.2.OwnTaken)
    (fun p hp => ⟨⟨held_of_reach hp, own_of_reach (runLts_of_readLts hp)⟩,
      runHistory_ok_of_reach (runLts_of_readLts hp), Client.known_of_reach hp.unrecorded⟩) ?_ ?_ h
  · rintro ⟨s, h⟩ ⟨-, rfl⟩
    exact fun _ ht => (by cases ht)
  · rintro ⟨s, h⟩ l ⟨s', h'⟩ - hstep ⟨⟨hheld, hown⟩, hok, hk⟩ - ho
    obtain ⟨hclient, hrecord⟩ := Lts.recorded_step hstep
    dsimp only at hclient hrecord hheld hown hok hk ho ⊢
    subst hrecord
    exact ho.step hheld hown hok hk (hk.wf.move hclient)

/-! ## The contract -/

section Contract

variable {P : Platform} {config : Config} {p : Client × ReadHistory}

/-- What was taken for the consumers of the start of a run is what was
taken in it. -/
theorem ReadHistory.OwnTaken.takenFor {s : Client} {h : ReadHistory} (ho : h.OwnTaken)
    (hb : h.Booked s) {run : Run} (hrun : run ∈ s.native.runs) :
    h.takenFor run.generation = run.taken := by
  rw [← hb.runs run hrun, ReadHistory.takenFor]
  congr 1
  refine List.filter_congr fun t ht => ?_
  rw [ho t ht, decide_eq_decide]
  exact Option.some_inj

/-- **A stale consumer takes nothing**, in every run in which the reads of
iterators note their generation in time. What is taken was pushed in the
native run of the consumer's own start and in no other; all that is taken
in a run is taken for the consumers of its start; and what was pushed in
the current run has been taken for them, was dropped, or is queued. -/
theorem stale_consumer_takes_nothing (hp : (readLts P config).Reach ReadHistory.Timely p) :
    (∀ t ∈ p.2.taken, p.2.runs.Pushed p.1 t.token t.sample) ∧
    (∀ run ∈ p.1.native.runs, p.2.takenFor run.generation = run.taken) ∧
    Ledger p.1.native.run.pushed (p.2.takenFor p.1.native.run.generation)
      p.1.native.queue.samples p.1.native.queue.droppedCount := by
  have hk : p.1.Known P config := Client.known_of_reach hp.unrecorded
  have hown := ownTaken_of_reach hp
  have hbooked := booked_of_reach hp
  refine ⟨fun t ht => ?_, fun run hrun => hown.takenFor hbooked hrun, ?_⟩
  · exact RunHistory.pushed_of_took hk (hown t ht) (hbooked.took t ht)
  · have hcurrent : p.1.native.run ∈ p.1.native.runs :=
      List.mem_append_right _ (List.mem_singleton_self _)
    rw [hown.takenFor hbooked hcurrent]
    exact (queueWf_of_reachable hk.native).books

end Contract

/-! ### A restart between the check and the read -/

/-- `start` for iterators, in the call `c`. -/
def iteratorStart (c : Nat) : List ClientLabel :=
  [.invoke c none (.start none)] ++ proceed (.call c) 2 ++ nativeProceed (2 * c) 6 ++
    List.replicate 4 (.native (.core (.call (4 * c) .go))) ++ nativeProceed (2 * c) 2 ++
    proceed (.call c) 2 ++ [.collect c]

/-- An iterator finds its run current; `stop` ends the run. -/
def checksThenStops : List ClientLabel :=
  iteratorStart 0 ++
    [.invoke 1 none (.samples none), .thread (.call 1) .go, .collect 1, .invoke 2 none (.next 0)] ++
    proceed (.call 2) 2 ++ [.invoke 3 none .stop] ++ proceed (.call 3) 2 ++ nativeProceed 6 4 ++
    ([.call 12 .go, .call 12 (.send .sent), .call 12 .go, .worker 0 .go, .worker 0 (.send .sent),
      .worker 0 .go, .worker 0 .go, .call 12 .go] : List Label).map (fun l => .native (.core l)) ++
    nativeProceed 6 1 ++ proceed (.call 3) 1 ++ [.collect 3]

def NativeLabel.byWorker (w : Nat) : NativeLabel → NativeLabel
  | .core (.worker _ choice) => .core (.worker w choice)
  | l => l

/-- Another `start`, and its receive thread pushes a sample. -/
def startsThenPushes : List ClientLabel :=
  iteratorStart 4 ++
    ((workerPushes (List.replicate 36 0)).map (NativeLabel.byWorker 1)).map .native

/-- The read of the first iterator comes behind both: it takes the sample
of the second run, and the iterator throws it away. -/
def staleRead : List ClientLabel :=
  checksThenStops ++ startsThenPushes ++ proceed (.call 2) 1 ++ nativeProceed 4 8 ++
    proceed (.call 2) 2

/-- The read notes the generation before the second `start`; then an
iterator of the second run asks. -/
def timelyRead : List ClientLabel :=
  checksThenStops ++ proceed (.call 2) 1 ++ nativeProceed 4 2 ++ startsThenPushes ++
    nativeProceed 4 6 ++ proceed (.call 2) 2 ++
    [.invoke 5 none (.samples none), .thread (.call 5) .go, .collect 5, .invoke 6 none (.next 1)] ++
    proceed (.call 6) 3 ++ nativeProceed 12 8 ++ proceed (.call 6) 2

theorem readLts_reachable :
    (readLts exactPlatform overrideConfig).Reachable (overrideClient overrideConfig, {}) :=
  Lts.Reachable.init ⟨⟨_, none, ⟨1000, 4, _, overrideConfig_valid, rfl, rfl⟩, rfl⟩, rfl⟩

/-- The sample of the second run is removed for the iterator of the first:
it is neither taken for a consumer of its run, nor dropped, nor queued. -/
theorem stale_iterator_takes_a_sample :
    ∃ p t, (readLts exactPlatform overrideConfig).Reachable p ∧ p.2.taken = [t] ∧
      p.1.place (.call 2) = some (.returned .stopIteration) ∧
      ¬ p.2.runs.Pushed p.1 t.token t.sample ∧
      ¬ Ledger p.1.native.run.pushed (p.2.takenFor p.1.native.run.generation)
        p.1.native.queue.samples p.1.native.queue.droppedCount := by
  obtain ⟨p, hp, hfacts⟩ := Lts.exists_of_exec readLts_reachable (l := staleRead)
    (p := fun p : Client × ReadHistory => decide (
      p.2.taken.map (fun t => (t.token, [t.sample])) = [(1, p.1.native.run.pushed)] ∧
      p.2.runs.generation 1 = some 1 ∧ p.1.native.run.generation = 3 ∧
      p.1.place (.call 2) = some (.returned .stopIteration) ∧
      p.2.takenFor 3 = [] ∧ p.1.native.queue.samples = [] ∧ p.1.native.queue.droppedCount = 0))
    (by decide +kernel)
  obtain ⟨htaken, hgeneration, hrun, hplace, htakenFor, hqueue, hdropped⟩ :=
    of_decide_eq_true hfacts
  obtain ⟨t, htaken, ht⟩ := List.map_eq_singleton_iff.mp htaken
  obtain ⟨htoken, hpushed⟩ := Prod.mk.inj ht
  refine ⟨p, t, hp, htaken, hplace, ?_, ?_⟩
  · rintro ⟨run, -, hnoted, -, honly⟩
    have heq := honly p.1.native.run (List.mem_append_right _ (List.mem_singleton_self _))
      (by rw [← hpushed]; exact List.mem_singleton_self _)
    rw [htoken, hgeneration, ← heq, hrun] at hnoted
    cases hnoted
  · intro hledger
    have hcount := hledger.count
    rw [← hpushed, hrun, htakenFor, hqueue, hdropped] at hcount
    cases hcount

def ReadHistory.timelyCheck (p : Client × ReadHistory) (l : ClientLabel) : Bool :=
  match p.1.captures l with
  | some i => decide (p.1.resetting = false ∧ (p.1.native.queue.isClosed = true ∨
      p.2.runs.generation (p.1.iterators i).token = some p.1.native.run.generation))
  | none => true

theorem ReadHistory.timely_of_check (p : Client × ReadHistory) (l : ClientLabel)
    (h : ReadHistory.timelyCheck p l = true) : ReadHistory.Timely p l := by
  intro i hi
  rw [ReadHistory.timelyCheck, hi] at h
  exact of_decide_eq_true h

/-- The first iterator gets nothing, the second the sample of its run. -/
theorem stale_consumer_takes_nothing_restarted :
    ∃ p t, (readLts exactPlatform overrideConfig).Reach ReadHistory.Timely p ∧ p.2.taken = [t] ∧
      t.token = 2 ∧ p.1.place (.call 2) = some (.returned .stopIteration) ∧
      p.1.place (.call 6) = some (.returned (.sample t.sample)) ∧
      p.2.runs.Pushed p.1 2 t.sample := by
  obtain ⟨p, hp, hfacts⟩ := Lts.exists_of_execChecked (l := timelyRead)
    (p := fun p : Client × ReadHistory => decide (
      p.2.taken.map (fun t => (t.token, some (Pc.returned (.sample t.sample)))) =
        [(2, p.1.place (.call 6))] ∧
      p.1.place (.call 2) = some (.returned .stopIteration)))
    ReadHistory.timelyCheck ReadHistory.timely_of_check
    (Lts.Reach.init ⟨⟨_, none, ⟨1000, 4, _, overrideConfig_valid, rfl, rfl⟩, rfl⟩, rfl⟩ :
      (readLts exactPlatform overrideConfig).Reach _ (overrideClient overrideConfig, {}))
    (by decide +kernel)
  obtain ⟨htaken, hstale⟩ := of_decide_eq_true hfacts
  obtain ⟨t, htaken, ht⟩ := List.map_eq_singleton_iff.mp htaken
  obtain ⟨htoken, hplace⟩ := Prod.mk.inj ht
  have hpushed := (stale_consumer_takes_nothing hp).1 t
    (by rw [htaken]; exact List.mem_singleton_self _)
  exact ⟨p, t, hp, htaken, htoken, hstale, hplace.symm, htoken ▸ hpushed⟩

end PyNetFT.Python
