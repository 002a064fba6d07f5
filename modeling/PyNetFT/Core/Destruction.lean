/-
PyNetFT.Core.Destruction — `Client::~Client`, `~Impl` and the
`DeferredDestroyer`.

A client is destroyed by a thread that stops it and then releases the
storage, or by its own sample callback, which cannot join its own thread:
that destructor only asks the thread to stop and hands the storage to the
deferred destroyer, one thread for the whole process, which stops it
again and releases it. `Process` holds all clients and that queue; the
steps of one client are those of `clientLts`.

`destroyed_is_quiet` is memory safety. The storage of a client is released
once, in the order of the queue, and when it is there is no thread left to
join, no thread running, no call inside it and no socket open, so that no
step can touch it again. What it asks of the user is `Process.Contract`:
no other thread uses the client while it is destroyed, and a callback that
destroys it does not use it again.
-/
import PyNetFT.Core.Descriptors
import PyNetFT.Core.Handover

namespace PyNetFT.Core

open PyNetFT.Lib

/-! ## The process -/

/-- How far the destruction of a client is. -/
inductive Life where
  | owned
  /-- `~Client` inside its `stop`, the call `c`; did it find itself on the
  receive thread? -/
  | stopping (caller : Option Nat) (c : Nat) (self : Bool)
  | pending
  /-- The deferred destroyer inside `value->stop()`. -/
  | releasing (c : Nat)
  /-- `~Impl` inside its `stop`. -/
  | finalizing (c : Nat) (deferred : Bool)
  | freed
  deriving DecidableEq

structure Slot where
  config : Config
  sys : Sys
  life : Life := .owned

/-- All clients ever made, the queue of the deferred destroyer and the
client it holds; in order, which clients were enqueued and which of them
it has released. -/
structure Process where
  clients : Nat → Option Slot := fun _ => none
  pending : List Nat := []
  current : Option Nat := none
  enqueued : List Nat := []
  released : List Nat := []

inductive ProcessLabel where
  | construct (id : Nat) (config : Config) (clock : TimePoint)
  | client (id : Nat) (l : Label)
  | destroy (id : Nat) (caller : Option Nat) (c : Nat)
  | stopped (id : Nat) (d : Nat)
  | take (c : Nat)
  | release (id : Nat)
  deriving DecidableEq

def Process.setClient (p : Process) (id : Nat) (slot : Slot) : Process :=
  { p with clients := Function.update p.clients id (some slot) }

/-- The call that the destruction itself makes; its return is not the
user's to collect. -/
def Life.call? : Life → Option Nat
  | .stopping _ c _ | .releasing c | .finalizing c _ => some c
  | _ => none

/-- The lock is taken for `called_from_worker_thread`, and given up before
`stop` takes it again. -/
def Slot.destroy (slot : Slot) (caller : Option Nat) (c : Nat) : Option Slot :=
  if slot.life = .owned ∧ slot.sys.lifecycle.isNone then
    (slot.sys.invoke c caller .stop).map fun s =>
      { slot with sys := s, life := .stopping caller c (slot.sys.shared.calledByWorker caller) }
  else none

/-- `stop` has returned to `~Client` or to the deferred destroyer; `d` is
the `stop` of `~Impl`. -/
def Slot.stopped (slot : Slot) (d : Nat) : Option Slot :=
  match slot.life with
  | .stopping _ c true => (slot.sys.collect c).map fun s => { slot with sys := s, life := .pending }
  | .stopping caller c false =>
      (slot.sys.collect c).bind fun s =>
        (s.invoke d caller .stop).map fun s => { slot with sys := s, life := .finalizing d false }
  | .releasing c =>
      (slot.sys.collect c).bind fun s =>
        (s.invoke d none .stop).map fun s => { slot with sys := s, life := .finalizing d true }
  | _ => none

/-- Was the client handed to the deferred destroyer? -/
def Life.enqueues : Life → Bool
  | .pending => true
  | _ => false

/-- One step of the process. -/
def Process.step (P : Platform) (p : Process) : ProcessLabel → Option Process
  | .construct id config clock =>
      if (p.clients id).isSome then none
      else
        match validateConfig clock config with
        | .error _ => none
        | .ok _ => some (p.setClient id { config := config, sys := Sys.new config clock })
  | .client id l =>
      (p.clients id).bind fun slot =>
        if slot.life.call?.map Label.collect = some l then none
        else
          (slot.sys.step P slot.config l).map fun s => p.setClient id { slot with sys := s }
  | .destroy id caller c =>
      (p.clients id).bind fun slot => (slot.destroy caller c).map (p.setClient id)
  | .stopped id d =>
      (p.clients id).bind fun slot =>
        (slot.stopped d).map fun slot =>
          if slot.life.enqueues then
            { p.setClient id slot with
              pending := p.pending ++ [id], enqueued := p.enqueued ++ [id] }
          else p.setClient id slot
  | .take c =>
      match p.current, p.pending with
      | none, id :: rest =>
          (p.clients id).bind fun slot =>
            (slot.sys.invoke c none .stop).map fun s =>
              { p.setClient id { slot with sys := s, life := .releasing c } with
                pending := rest, current := some id }
      | _, _ => none
  | .release id =>
      (p.clients id).bind fun slot =>
        match slot.life with
        | .finalizing c deferred =>
            (slot.sys.collect c).map fun s =>
              let p' := p.setClient id { slot with sys := s, life := .freed }
              if deferred then { p' with current := none, released := p.released ++ [id] } else p'
        | _ => none

def processLts (P : Platform) : Lts Process ProcessLabel where
  init p := p = {}
  step := Process.step P

/-! ## What the user keeps to -/

/-- Until when a callback may use its client: it did not itself begin the
destruction. -/
def Life.open : Life → Bool
  | .owned | .stopping _ _ false | .finalizing _ false => true
  | _ => false

/-- Other threads use a client they own, and no call of theirs is inside
it when its destruction begins. -/
def Process.Contract (p : Process) : ProcessLabel → Prop
  | .client id (.invoke _ none _) => ∀ slot, p.clients id = some slot → slot.life = .owned
  | .client id (.invoke _ (some _) _) => ∀ slot, p.clients id = some slot → slot.life.open = true
  | .destroy id _ _ => ∀ slot, p.clients id = some slot →
      ∀ c call, slot.sys.calls c = some call → call.caller ≠ none
  | _ => True

/-! ## One stopping call -/

section Client

variable {P : Platform} {config : Config} {s s' : Sys}

/-- What a step does to a call that is there and not collected. -/
theorem Sys.step_kept {c : Nat} {call : Call} {l : Label} (hc : s.calls c = some call)
    (hl : l ≠ .collect c) (hstep : s.step P config l = some s') :
    s'.calls c = some call ∨ ∃ choice pc' u, l = .call c choice ∧
      callStep config c call choice s = some (pc', u) ∧
      s'.calls c = some { call with pc := pc' } := by
  cases l with
  | invoke k caller op =>
    left
    have hfresh : s.calls k = none := by
      by_contra hne
      simp [Sys.step, Sys.invoke, Option.isSome_iff_ne_none.mpr hne] at hstep
    have hne : c ≠ k := by
      rintro rfl
      rw [hfresh] at hc
      cases hc
    simp only [Sys.step, Sys.invoke, hfresh, Option.isSome_none, Bool.false_eq_true,
      if_false] at hstep
    split at hstep
    · cases hstep
      rw [Sys.setCall_calls_of_ne _ _ hne]
      exact hc
    · split at hstep
      · cases hstep
      · split at hstep
        · cases hstep
          rw [Sys.setCall_calls_of_ne _ _ hne]
          exact hc
        · cases hstep
  | collect k =>
    left
    have hne : c ≠ k := fun e => hl (e ▸ rfl)
    simp only [Sys.step, Sys.collect] at hstep
    split at hstep
    · split at hstep
      · cases hstep
        rw [Sys.setCall_calls_of_ne _ _ hne]
        exact hc
      · split at hstep
        · cases hstep
        · cases hstep
          rw [Sys.setCall_calls_of_ne _ _ hne]
          exact hc
    · cases hstep
  | tick ticks =>
    cases hstep
    exact .inl hc
  | call k choice =>
    cases Sys.step_move hstep with
    | places label => simp at label
    | @call _ other pc' u _ hk step move =>
      by_cases hkc : c = k
      · subst hkc
        rw [hc] at hk
        cases hk
        exact .inr ⟨choice, pc', u, rfl, step, Sys.setCall_calls_self _ _ _⟩
      · left
        rw [Sys.setCall_calls_of_ne _ _ hkc, callMove_calls move]
        exact hc
  | worker w choice =>
    cases Sys.step_move hstep with
    | places label => simp at label
    | worker => exact .inl hc

/-- Where a call that is there comes from. -/
theorem Sys.step_calls {k : Nat} {call' : Call} {l : Label} (hstep : s.step P config l = some s')
    (hk : s'.calls k = some call') :
    (l ≠ .collect k ∧ ∃ call, s.calls k = some call ∧ call.caller = call'.caller) ∨
      ∃ op, l = .invoke k call'.caller op := by
  cases l with
  | invoke c caller op =>
    rcases Sys.invoke_calls hstep hk with hold | ⟨rfl, rfl⟩
    · exact .inl ⟨by simp, call', hold, rfl⟩
    · exact .inr ⟨op, rfl⟩
  | collect c =>
    obtain ⟨hne, hold⟩ := Sys.collect_calls hstep hk
    refine .inl ⟨?_, call', hold, rfl⟩
    rintro heq
    cases heq
    exact hne rfl
  | tick ticks =>
    cases hstep
    exact .inl ⟨by simp, call', hk, rfl⟩
  | call c choice =>
    cases Sys.step_move hstep with
    | places label => simp at label
    | @call _ call pc' u _ hc step move =>
      rcases Sys.setCall_cases hk with ⟨rfl, heq⟩ | ⟨-, hk⟩
      · cases heq
        exact .inl ⟨by simp, call, hc, rfl⟩
      · exact .inl ⟨by simp, call', callMove_calls move ▸ hk, rfl⟩
  | worker w choice =>
    cases Sys.step_move hstep with
    | places label => simp at label
    | worker => exact .inl ⟨by simp, call', hk, rfl⟩

/-- A `stop` stays in `stop` until it returns. -/
theorem callStep_stop {c : Nat} {call : Call} {choice : CallChoice} {pc' : CallPc}
    (hpart : call.pc.part = .stop) (h : callStep config c call choice s = some (pc', s')) :
    pc'.part = .stop ∨ ∃ result, pc' = .returned result := by
  obtain ⟨caller, op, pc⟩ := call
  dsimp only at hpart
  simp only [callStep, hpart] at h
  cases pc <;> dsimp only [stopStep] at h
  case stopDecide =>
    split at h
    · cases h
      exact .inr ⟨_, rfl⟩
    · split at h
      · cases h
        exact .inl rfl
      · split at h
        · cases h
          exact .inr ⟨_, rfl⟩
        · cases h
          exact .inl rfl
  case stopJoin w =>
    split at h
    · cases h
      exact .inr ⟨_, rfl⟩
    · cases h
  all_goals
    try split at h
    all_goals
      cases h
      try exact .inl rfl

/-- A returned call takes no step. -/
theorem callStep_returned {c : Nat} {call : Call} {choice : CallChoice} {result : CallResult}
    (hpc : call.pc = .returned result) : callStep config c call choice s = none := by
  simp [callStep, hpc, CallPc.part, otherStep]

/-- With no thread running, no call comes from a callback. -/
theorem Sys.Quiescent.caller_none (h : s.Quiescent) (hwf : s.Wf) {c : Nat} {call : Call}
    (hc : s.calls c = some call) : call.caller = none := by
  cases hcaller : call.caller with
  | none => rfl
  | some w =>
    obtain ⟨t, ht, hnested⟩ := hwf.calls.nested c call w hc hcaller
    have hphase := hwf.workers.waiting w t ht (by rw [hnested]; rfl)
    rw [h.done hwf ht] at hphase
    cases hphase

/-- Two callbacks do not wait at the same time. -/
theorem Sys.Wf.caller_unique (hwf : s.Wf) {c k w v : Nat} {call other : Call}
    (hc : s.calls c = some call) (hw : call.caller = some w) (hk : s.calls k = some other)
    (hv : other.caller = some v) : k = c := by
  obtain ⟨t, ht, hnested⟩ := hwf.calls.nested c call w hc hw
  obtain ⟨u, hu, hnested'⟩ := hwf.calls.nested k other v hk hv
  have hphase := hwf.workers.waiting w t ht (by rw [hnested]; rfl)
  have hphase' := hwf.workers.waiting v u hu (by rw [hnested']; rfl)
  have hactive := hwf.active_of_running ht (by rw [hphase]; simp)
  have hactive' := hwf.active_of_running hu (by rw [hphase']; simp)
  obtain rfl : w = v := Option.some.inj (hactive.symm.trans hactive')
  rw [ht] at hu
  cases hu
  rw [hnested] at hnested'
  exact (Option.some.inj hnested').symm

/-- The call `c` of the destruction is a `stop`, any other call comes from
a callback, and once a `stop` from outside has returned all is quiet. -/
structure Sys.Stops (s : Sys) (caller : Option Nat) (c : Nat) : Prop where
  call : ∃ call, s.calls c = some call ∧ call.caller = caller ∧
    (call.pc.part = .stop ∨ ∃ result, call.pc = .returned result)
  others : ∀ k call, s.calls k = some call → k ≠ c → call.caller ≠ none
  settled : caller = none → ∀ call result, s.calls c = some call →
    call.pc = .returned result → s.Quiescent

/-- In a quiet client the call of the destruction is the only one, so that
no `start` is under way. -/
theorem Sys.Stops.no_start {caller : Option Nat} {c : Nat} (h : s.Stops caller c) (hwf : s.Wf)
    (hquiet : s.Quiescent) (l : Label) : ¬ s.StartBegins l := by
  intro hbegins
  cases l with
  | call k choice =>
    obtain ⟨other, callback, hk, hpc⟩ := hbegins
    by_cases hkc : k = c
    · subst hkc
      obtain ⟨call, hc, -, hplace⟩ := h.call
      rw [hc] at hk
      cases hk
      rcases hpc with hpc | hpc <;> rw [hpc] at hplace <;> simp [CallPc.part] at hplace
    · exact h.others k other hk hkc (hquiet.caller_none hwf hk)
  | _ => exact hbegins

theorem Sys.Stops.step (h : (clientLts P config).Reachable s) {caller : Option Nat} {c : Nat}
    (hstops : s.Stops caller c) {l : Label} (hcollect : l ≠ .collect c)
    (hinvoke : ∀ k op, l ≠ .invoke k none op) (hstep : s.step P config l = some s') :
    s'.Stops caller c := by
  have hwf := wf_of_reachable h
  obtain ⟨⟨call, hc, hcaller, hplace⟩, hothers, hsettled⟩ := id hstops
  have hkept := Sys.step_kept hc hcollect hstep
  refine ⟨?_, ?_, ?_⟩
  · rcases hkept with hsame | ⟨choice, pc', u, rfl, hmove, hc'⟩
    · exact ⟨call, hsame, hcaller, hplace⟩
    · refine ⟨_, hc', hcaller, ?_⟩
      rcases hplace with hpart | ⟨result, hpc⟩
      · exact callStep_stop hpart hmove
      · rw [callStep_returned hpc] at hmove
        cases hmove
  · intro k call' hk hne
    rcases Sys.step_calls hstep hk with ⟨-, other, hold, heq⟩ | ⟨op, rfl⟩
    · rw [← heq]
      exact hothers k other hold hne
    · intro hnone
      exact hinvoke k op (by rw [hnone])
  · rintro hnone call' result hc' hpc'
    subst hnone
    rcases hkept with hsame | ⟨choice, pc', u, rfl, hmove, hc''⟩
    · rw [hsame] at hc'
      cases hc'
      have hquiet := hsettled rfl call result hc hpc'
      exact (hquiet.step hwf (hstops.no_start hwf hquiet l) hstep).1
    · rw [hc''] at hc'
      cases hc'
      obtain rfl : pc' = .returned result := hpc'
      rcases hplace with hpart | ⟨result', hpc⟩
      · exact Sys.quiescent_of_stop_returned hwf (sessionWf_of_reachable h)
          (faultWf_of_reachable h) hc hpart hcaller hstep hc''
      · rw [callStep_returned hpc] at hmove
        cases hmove

theorem Sys.invoke_self {c : Nat} {caller : Option Nat} {op : Op}
    (hstep : s.invoke c caller op = some s') : s'.calls c = some ⟨caller, op, op.entry⟩ := by
  unfold Sys.invoke at hstep
  split at hstep
  · cases hstep
  · split at hstep
    · cases hstep
      exact Sys.setCall_calls_self _ _ _
    · split at hstep
      · cases hstep
      · split at hstep
        · cases hstep
          exact Sys.setCall_calls_self _ _ _
        · cases hstep

theorem Sys.collect_returned {c : Nat} (hstep : s.collect c = some s') :
    ∃ call result, s.calls c = some call ∧ call.pc = .returned result := by
  unfold Sys.collect at hstep
  split at hstep
  · rename_i caller op result hc
    exact ⟨_, result, hc, rfl⟩
  · cases hstep

/-- The `stop` a destruction makes, when all other calls come from
callbacks. -/
theorem Sys.stops_of_invoke {caller : Option Nat} {c : Nat}
    (hothers : ∀ k call, s.calls k = some call → call.caller ≠ none)
    (hstep : s.invoke c caller .stop = some s') : s'.Stops caller c := by
  have hself := Sys.invoke_self hstep
  refine ⟨⟨_, hself, rfl, .inl rfl⟩, ?_, ?_⟩
  · intro k call hk hne
    rcases Sys.invoke_calls hstep hk with hold | ⟨rfl, -⟩
    · exact hothers k call hold
    · exact absurd rfl hne
  · intro _ call result hc hpc
    rw [hself] at hc
    cases hc
    cases hpc

/-- When the `stop` of another thread has returned, its call was the only
one left. -/
theorem Sys.Stops.collect (h : (clientLts P config).Reachable s) {c : Nat}
    (hstops : s.Stops none c) (hstep : s.collect c = some s') :
    (clientLts P config).Reachable s' ∧ s'.Quiescent ∧ ∀ k, s'.calls k = none := by
  have hwf := wf_of_reachable h
  obtain ⟨call, result, hc, hpc⟩ := Sys.collect_returned hstep
  have hquiet := hstops.settled rfl call result hc hpc
  have hstep' : s.step P config (.collect c) = some s' := hstep
  refine ⟨h.step (l := .collect c) hstep,
    (hquiet.step hwf (hstops.no_start hwf hquiet _) hstep').1, ?_⟩
  intro k
  by_contra hne
  obtain ⟨other, hk⟩ := Option.ne_none_iff_exists'.mp hne
  obtain ⟨hkc, hold⟩ := Sys.collect_calls hstep hk
  exact hstops.others k other hold hkc (hquiet.caller_none hwf hold)

end Client

/-! ## The invariant -/

/-- What the stages of a destruction say about the client. -/
def Life.Ok (s : Sys) : Life → Prop
  | .owned => True
  | .stopping caller c self => self = caller.isSome ∧ s.Stops caller c
  | .pending => ∀ k, s.calls k = none
  | .releasing c => s.Stops none c
  | .finalizing c _ => s.Quiescent ∧ s.Stops none c
  | .freed => s.Quiescent ∧ ∀ k, s.calls k = none

structure Slot.Wf (P : Platform) (slot : Slot) : Prop where
  reachable : (clientLts P slot.config).Reachable slot.sys
  life : slot.life.Ok slot.sys

section Slots

variable {P : Platform} {slot slot' : Slot}

theorem Slot.Wf.client (h : slot.Wf P) {l : Label} {s : Sys}
    (hcall : slot.life.call?.map Label.collect ≠ some l)
    (houtside : ∀ k op, l = .invoke k none op → slot.life = .owned)
    (hinside : ∀ k w op, l = .invoke k (some w) op → slot.life.open = true)
    (hstep : slot.sys.step P slot.config l = some s) :
    ({ slot with sys := s } : Slot).Wf P := by
  refine ⟨h.reachable.step hstep, ?_⟩
  have hwf := wf_of_reachable h.reachable
  -- while no call may be made, those that are there are all there is
  have hnone : slot.life ≠ .owned → slot.life.open = false →
      (∀ k, slot.sys.calls k = none) → ∀ k, s.calls k = none := by
    intro howned hopen hcalls k
    by_contra hne
    obtain ⟨call, hk⟩ := Option.ne_none_iff_exists'.mp hne
    rcases Sys.step_calls hstep hk with ⟨-, other, hold, -⟩ | ⟨op, rfl⟩
    · rw [hcalls k] at hold
      cases hold
    · cases hcaller : call.caller with
      | none => exact howned (houtside k op (by rw [hcaller]))
      | some w =>
        rw [hinside k w op (by rw [hcaller])] at hopen
        cases hopen
  obtain ⟨config, sys, life⟩ := slot
  have hlife := h.life
  dsimp only at hcall houtside hstep hnone hlife hwf ⊢
  have hinvoke : life ≠ .owned → ∀ k op, l ≠ .invoke k none op :=
    fun hne k op heq => hne (houtside k op heq)
  cases life with
  | owned => trivial
  | stopping caller c self =>
    refine ⟨hlife.1, hlife.2.step h.reachable ?_ (hinvoke (by simp)) hstep⟩
    exact fun heq => hcall (by rw [heq]; rfl)
  | pending => exact hnone (by simp) rfl hlife
  | releasing c =>
    refine Sys.Stops.step h.reachable hlife ?_ (hinvoke (by simp)) hstep
    exact fun heq => hcall (by rw [heq]; rfl)
  | finalizing c deferred =>
    refine ⟨(hlife.1.step hwf (hlife.2.no_start hwf hlife.1 l) hstep).1,
      hlife.2.step h.reachable ?_ (hinvoke (by simp)) hstep⟩
    exact fun heq => hcall (by rw [heq]; rfl)
  | freed =>
    refine ⟨(hlife.1.step hwf ?_ hstep).1, hnone (by simp) rfl hlife.2⟩
    intro hbegins
    cases l with
    | call k choice =>
      obtain ⟨call, -, hk, -⟩ := hbegins
      rw [hlife.2 k] at hk
      cases hk
    | _ => exact hbegins

theorem Slot.Wf.destroy (h : slot.Wf P) {caller : Option Nat} {c : Nat}
    (hcalls : ∀ k call, slot.sys.calls k = some call → call.caller ≠ none)
    (hstep : slot.destroy caller c = some slot') :
    slot'.Wf P ∧ slot.life = .owned ∧
      slot'.life = .stopping caller c caller.isSome := by
  unfold Slot.destroy at hstep
  split at hstep
  · rename_i hcond
    obtain ⟨s, hinvoke, rfl⟩ := Option.map_eq_some_iff.mp hstep
    have hreach : (clientLts P slot.config).Reachable s :=
      h.reachable.step (l := .invoke c caller .stop) hinvoke
    -- a callback that gets here finds itself on the receive thread
    have hself : slot.sys.shared.calledByWorker caller = caller.isSome := by
      cases caller with
      | none => simp [Shared.calledByWorker]
      | some w =>
        have hcalled := (wf_of_reachable hreach).calledByWorker (Sys.invoke_self hinvoke) rfl
        rw [(Sys.invoke_samePlaces hinvoke).shared] at hcalled
        exact hcalled
    exact ⟨⟨hreach, hself, Sys.stops_of_invoke hcalls hinvoke⟩, hcond.1, by rw [hself]⟩
  · cases hstep

/-- A quiet client without calls, and the next `stop` of its destruction. -/
theorem Slot.Wf.next {s t : Sys} {config : Config} {d : Nat}
    (hs : (clientLts P config).Reachable s ∧ s.Quiescent ∧ ∀ k, s.calls k = none)
    (hinvoke : s.invoke d none .stop = some t) :
    (clientLts P config).Reachable t ∧ t.Quiescent ∧ t.Stops none d := by
  obtain ⟨hreach, hquiet, hcalls⟩ := hs
  have hstep : s.step P config (.invoke d none .stop) = some t := hinvoke
  refine ⟨hreach.step (l := .invoke d none .stop) hinvoke,
    (hquiet.step (wf_of_reachable hreach) id hstep).1, ?_⟩
  refine Sys.stops_of_invoke ?_ hinvoke
  intro k call hk
  rw [hcalls k] at hk
  cases hk

theorem Slot.Wf.stopped (h : slot.Wf P) {d : Nat} (hstep : slot.stopped d = some slot') :
    slot'.Wf P ∧
      ((∃ w c, slot.life = .stopping (some w) c true ∧ slot'.life = .pending) ∨
        (∃ c, slot.life = .stopping none c false ∧ slot'.life = .finalizing d false) ∨
        ∃ c, slot.life = .releasing c ∧ slot'.life = .finalizing d true) := by
  obtain ⟨config, sys, life⟩ := slot
  obtain ⟨hreach, hlife⟩ := h
  dsimp only at hreach hlife
  cases life <;> dsimp only [Slot.stopped] at hstep
  case stopping caller c self =>
    obtain ⟨rfl, hstops⟩ := hlife
    cases caller with
    | some w =>
      obtain ⟨s, hcollect, rfl⟩ := Option.map_eq_some_iff.mp hstep
      refine ⟨⟨hreach.step (l := .collect c) hcollect, ?_⟩, .inl ⟨w, c, rfl, rfl⟩⟩
      intro k
      by_contra hne
      obtain ⟨other, hk⟩ := Option.ne_none_iff_exists'.mp hne
      obtain ⟨hkc, hold⟩ := Sys.collect_calls hcollect hk
      obtain ⟨call, hc, hcaller, -⟩ := hstops.call
      obtain ⟨v, hv⟩ := Option.ne_none_iff_exists'.mp (hstops.others k other hold hkc)
      exact hkc ((wf_of_reachable hreach).caller_unique hc hcaller hold hv)
    | none =>
      obtain ⟨s, hcollect, hrest⟩ := Option.bind_eq_some_iff.mp hstep
      obtain ⟨t, hinvoke, rfl⟩ := Option.map_eq_some_iff.mp hrest
      obtain ⟨ht, hquiet, hnext⟩ := Slot.Wf.next (hstops.collect hreach hcollect) hinvoke
      exact ⟨⟨ht, hquiet, hnext⟩, .inr (.inl ⟨c, rfl, rfl⟩)⟩
  case releasing c =>
    obtain ⟨s, hcollect, hrest⟩ := Option.bind_eq_some_iff.mp hstep
    obtain ⟨t, hinvoke, rfl⟩ := Option.map_eq_some_iff.mp hrest
    obtain ⟨ht, hquiet, hnext⟩ := Slot.Wf.next (Sys.Stops.collect hreach hlife hcollect) hinvoke
    exact ⟨⟨ht, hquiet, hnext⟩, .inr (.inr ⟨c, rfl, rfl⟩)⟩
  all_goals cases hstep

theorem Slot.Wf.taken (h : slot.Wf P) {c : Nat} {s : Sys} (hlife : slot.life = .pending)
    (hstep : slot.sys.invoke c none .stop = some s) :
    ({ slot with sys := s, life := .releasing c } : Slot).Wf P := by
  refine ⟨h.reachable.step (l := .invoke c none .stop) hstep, Sys.stops_of_invoke ?_ hstep⟩
  intro k call hk
  have hok := h.life
  rw [hlife] at hok
  rw [hok k] at hk
  cases hk

theorem Slot.Wf.released (h : slot.Wf P) {c : Nat} {deferred : Bool} {s : Sys}
    (hlife : slot.life = .finalizing c deferred) (hstep : slot.sys.collect c = some s) :
    ({ slot with sys := s, life := .freed } : Slot).Wf P := by
  have hok := h.life
  rw [hlife] at hok
  obtain ⟨hreach, hquiet⟩ := hok.2.collect h.reachable hstep
  exact ⟨hreach, hquiet⟩

end Slots

/-- Is the client with the deferred destroyer? -/
def Life.held : Life → Bool
  | .releasing _ | .finalizing _ true => true
  | _ => false

def Process.life (p : Process) (id : Nat) : Option Life := (p.clients id).map Slot.life

/-- The queue holds the pending clients, and the books of the deferred
destroyer balance. -/
structure Process.Wf (P : Platform) (p : Process) : Prop where
  slots : ∀ id slot, p.clients id = some slot → slot.Wf P
  pending : ∀ id, id ∈ p.pending ↔ p.life id = some .pending
  current : ∀ id, p.current = some id ↔ ∃ life, p.life id = some life ∧ life.held = true
  released : ∀ id ∈ p.released, p.life id = some .freed
  books : p.enqueued = p.released ++ p.current.toList ++ p.pending
  once : p.enqueued.Nodup

section Steps

variable {P : Platform} {p p' : Process}

@[simp] theorem Process.setClient_life (p : Process) (id : Nat) (slot : Slot) (k : Nat) :
    (p.setClient id slot).life k = if k = id then some slot.life else p.life k := by
  unfold Process.life Process.setClient
  by_cases h : k = id
  · simp [h]
  · simp [h]

theorem Process.Wf.setClient_slots (h : p.Wf P) {id : Nat} {slot : Slot} (hslot : slot.Wf P) :
    ∀ k s, (p.setClient id slot).clients k = some s → s.Wf P := by
  intro k s hs
  by_cases hk : k = id
  · subst hk
    simp only [Process.setClient, Function.update_self, Option.some.injEq] at hs
    exact hs ▸ hslot
  · exact h.slots k s (by simpa [Process.setClient, hk] using hs)

theorem Process.Wf.released_after (h : p.Wf P) {id : Nat} {slot : Slot}
    (hfreed : p.life id = some .freed → slot.life = .freed) :
    ∀ k ∈ p.released, (p.setClient id slot).life k = some .freed := by
  intro k hk
  rw [Process.setClient_life]
  have := h.released k hk
  split
  · rename_i heq
    subst heq
    rw [hfreed this]
  · exact this

/-- A step of one client that does not change its standing with the
deferred destroyer. -/
theorem Process.Wf.keep (h : p.Wf P) {id : Nat} {slot : Slot} (hslot : slot.Wf P)
    (hpending : slot.life = .pending ↔ p.life id = some .pending)
    (hheld : slot.life.held = true ↔ ∃ life, p.life id = some life ∧ life.held = true)
    (hfreed : p.life id = some .freed → slot.life = .freed) : (p.setClient id slot).Wf P where
  slots := h.setClient_slots hslot
  pending := by
    intro k
    rw [Process.setClient_life, show (p.setClient id slot).pending = p.pending from rfl,
      h.pending k]
    by_cases hk : k = id
    · subst hk
      simp [hpending]
    · simp [hk]
  current := by
    intro k
    rw [Process.setClient_life, show (p.setClient id slot).current = p.current from rfl,
      h.current k]
    by_cases hk : k = id
    · subst hk
      simp [hheld]
    · simp [hk]
  released := h.released_after hfreed
  books := h.books
  once := h.once

theorem Process.Wf.construct (h : p.Wf P) {id : Nat} {config : Config} {clock : TimePoint}
    (hstep : p.step P (.construct id config clock) = some p') : p'.Wf P := by
  simp only [Process.step] at hstep
  split at hstep
  · cases hstep
  rename_i hfresh
  have hnone : p.life id = none := by
    have : p.clients id = none := by simpa using hfresh
    simp [Process.life, this]
  split at hstep
  · cases hstep
  rename_i hvalid
  cases hstep
  refine h.keep ⟨.init ⟨clock, hvalid, rfl⟩, trivial⟩ ?_ ?_ ?_
  · simp [hnone]
  · simp [hnone, Life.held]
  · simp [hnone]

theorem Process.Wf.client (h : p.Wf P) {id : Nat} {l : Label} (hok : p.Contract (.client id l))
    (hstep : p.step P (.client id l) = some p') : p'.Wf P := by
  simp only [Process.step] at hstep
  obtain ⟨slot, hslot, hstep⟩ := Option.bind_eq_some_iff.mp hstep
  split at hstep
  · cases hstep
  rename_i hcall
  obtain ⟨s, hs, rfl⟩ := Option.map_eq_some_iff.mp hstep
  have hlife : p.life id = some slot.life := by simp [Process.life, hslot]
  refine h.keep ((h.slots id slot hslot).client hcall ?_ ?_ hs) ?_ ?_ ?_
  · rintro k op rfl
    exact hok slot hslot
  · rintro k w op rfl
    exact hok slot hslot
  · simp [hlife]
  · simp [hlife]
  · simp [hlife]

theorem Process.Wf.destroy (h : p.Wf P) {id c : Nat} {caller : Option Nat}
    (hok : p.Contract (.destroy id caller c))
    (hstep : p.step P (.destroy id caller c) = some p') : p'.Wf P := by
  simp only [Process.step] at hstep
  obtain ⟨slot, hslot, hstep⟩ := Option.bind_eq_some_iff.mp hstep
  obtain ⟨slot', hdestroy, rfl⟩ := Option.map_eq_some_iff.mp hstep
  obtain ⟨hwf, howned, hlife'⟩ := (h.slots id slot hslot).destroy (hok slot hslot) hdestroy
  have hlife : p.life id = some .owned := by simp [Process.life, hslot, howned]
  refine h.keep hwf ?_ ?_ ?_
  · simp [hlife, hlife']
  · simp [hlife, hlife', Life.held]
  · simp [hlife]

/-- A client under destruction has not been enqueued before. -/
theorem Process.Wf.not_enqueued (h : p.Wf P) {id w c : Nat}
    (hlife : p.life id = some (.stopping (some w) c true)) : id ∉ p.enqueued := by
  rw [h.books]
  simp only [List.mem_append, not_or]
  refine ⟨⟨fun hmem => ?_, fun hmem => ?_⟩, fun hmem => ?_⟩
  · have := h.released id hmem
    rw [hlife] at this
    cases this
  · obtain ⟨life, hid, hheld⟩ := (h.current id).mp (Option.mem_toList.mp hmem)
    rw [hlife] at hid
    cases hid
    cases hheld
  · have := (h.pending id).mp hmem
    rw [hlife] at this
    cases this

/-- Its storage goes to the end of the queue. -/
theorem Process.Wf.enqueue (h : p.Wf P) {id w c : Nat} {slot : Slot} (hslot : slot.Wf P)
    (hlife : p.life id = some (.stopping (some w) c true)) (hafter : slot.life = .pending) :
    ({ p.setClient id slot with
      pending := p.pending ++ [id], enqueued := p.enqueued ++ [id] } : Process).Wf P := by
  refine ⟨h.setClient_slots hslot, ?_, ?_, h.released_after (by simp [hlife]), ?_, ?_⟩
  · intro k
    show k ∈ p.pending ++ [id] ↔ (p.setClient id slot).life k = _
    rw [Process.setClient_life, List.mem_append, h.pending k]
    by_cases hk : k = id
    · simp [hk, hafter]
    · simp [hk]
  · intro k
    show p.current = some k ↔ ∃ life, (p.setClient id slot).life k = some life ∧ _
    rw [Process.setClient_life, h.current k]
    by_cases hk : k = id
    · subst hk
      simp [hlife, hafter, Life.held]
    · simp [hk]
  · show p.enqueued ++ [id] = p.released ++ p.current.toList ++ (p.pending ++ [id])
    rw [h.books, List.append_assoc]
  · refine List.nodup_append.mpr ⟨h.once, by simp, ?_⟩
    rintro k hk j hj rfl
    exact h.not_enqueued hlife (List.mem_singleton.mp hj ▸ hk)

theorem Process.Wf.stopped (h : p.Wf P) {id d : Nat}
    (hstep : p.step P (.stopped id d) = some p') : p'.Wf P := by
  simp only [Process.step] at hstep
  obtain ⟨slot, hslot, hstep⟩ := Option.bind_eq_some_iff.mp hstep
  obtain ⟨slot', hstopped, rfl⟩ := Option.map_eq_some_iff.mp hstep
  obtain ⟨hwf, hcases⟩ := (h.slots id slot hslot).stopped hstopped
  have hlife : p.life id = some slot.life := by simp [Process.life, hslot]
  rcases hcases with ⟨w, c, hbefore, hafter⟩ | ⟨c, hbefore, hafter⟩ | ⟨c, hbefore, hafter⟩
  · rw [hafter, if_pos (show Life.pending.enqueues = true from rfl)]
    exact h.enqueue hwf (hbefore ▸ hlife) hafter
  · rw [hafter]
    refine h.keep hwf ?_ ?_ ?_
    · simp [hlife, hbefore, hafter]
    · simp [hlife, hbefore, hafter, Life.held]
    · simp [hlife, hbefore]
  · rw [hafter]
    refine h.keep hwf ?_ ?_ ?_
    · simp [hlife, hbefore, hafter]
    · simp [hlife, hbefore, hafter, Life.held]
    · simp [hlife, hbefore]

/-- The deferred destroyer takes the head of the queue. -/
theorem Process.Wf.take (h : p.Wf P) {c : Nat} (hstep : p.step P (.take c) = some p') :
    p'.Wf P := by
  simp only [Process.step] at hstep
  split at hstep
  · rename_i id rest hcurrent hpending
    obtain ⟨slot, hslot, hstep⟩ := Option.bind_eq_some_iff.mp hstep
    obtain ⟨s, hinvoke, rfl⟩ := Option.map_eq_some_iff.mp hstep
    have hlife : p.life id = some .pending := (h.pending id).mp (by simp [hpending])
    have hslotLife : slot.life = .pending := by
      simpa [Process.life, hslot] using hlife
    have hbooks := h.books
    rw [hcurrent, hpending] at hbooks
    have hrest : id ∉ rest := by
      have honce := h.once
      rw [hbooks] at honce
      exact (List.nodup_cons.mp (List.nodup_append.mp honce).2.1).1
    refine ⟨h.setClient_slots ((h.slots id slot hslot).taken hslotLife hinvoke),
      ?_, ?_, h.released_after (by simp [hlife]), ?_, h.once⟩
    · intro k
      show k ∈ rest ↔ (p.setClient id _).life k = _
      rw [Process.setClient_life]
      by_cases hk : k = id
      · simp [hk, hrest]
      · have := h.pending k
        rw [hpending] at this
        simpa [hk] using this
    · intro k
      show some id = some k ↔ ∃ life, (p.setClient id _).life k = some life ∧ _
      rw [Process.setClient_life]
      by_cases hk : k = id
      · simp [hk, Life.held]
      · rw [if_neg hk, ← h.current k, hcurrent]
        simpa using fun e : id = k => hk e.symm
    · show p.enqueued = p.released ++ [id] ++ rest
      rw [hbooks]
      simp
  · cases hstep

/-- It has released the client it took. -/
theorem Process.Wf.releaseTaken (h : p.Wf P) {id c : Nat} {slot : Slot} (hslot : slot.Wf P)
    (hlife : p.life id = some (.finalizing c true)) (hafter : slot.life = .freed) :
    ({ p.setClient id slot with
      current := none, released := p.released ++ [id] } : Process).Wf P := by
  have hcurrent : p.current = some id := (h.current id).mpr ⟨_, hlife, rfl⟩
  have hbooks := h.books
  rw [hcurrent] at hbooks
  refine ⟨h.setClient_slots hslot, ?_, ?_, ?_, ?_, h.once⟩
  · intro k
    show k ∈ p.pending ↔ (p.setClient id slot).life k = _
    rw [Process.setClient_life, h.pending k]
    by_cases hk : k = id
    · simp [hk, hlife, hafter]
    · simp [hk]
  · intro k
    show none = some k ↔ ∃ life, (p.setClient id slot).life k = some life ∧ _
    rw [Process.setClient_life]
    by_cases hk : k = id
    · simp [hk, hafter, Life.held]
    · rw [if_neg hk, ← h.current k, hcurrent]
      simpa using fun e : id = k => hk e.symm
  · intro k hk
    rcases List.mem_append.mp hk with hk | hk
    · exact h.released_after (fun _ => hafter) k hk
    · show (p.setClient id slot).life k = _
      rw [Process.setClient_life, if_pos (List.mem_singleton.mp hk), hafter]
  · show p.enqueued = p.released ++ [id] ++ [] ++ p.pending
    rw [hbooks]
    simp

theorem Process.Wf.release (h : p.Wf P) {id : Nat} (hstep : p.step P (.release id) = some p') :
    p'.Wf P := by
  simp only [Process.step] at hstep
  obtain ⟨slot, hslot, hstep⟩ := Option.bind_eq_some_iff.mp hstep
  split at hstep
  · rename_i c deferred hslotLife
    obtain ⟨s, hcollect, rfl⟩ := Option.map_eq_some_iff.mp hstep
    have hwf := (h.slots id slot hslot).released hslotLife hcollect
    have hlife : p.life id = some (.finalizing c deferred) := by
      simp [Process.life, hslot, hslotLife]
    cases deferred with
    | false =>
      refine h.keep hwf ?_ ?_ ?_
      · simp [hlife]
      · simp [hlife, Life.held]
      · simp [hlife]
    | true => exact h.releaseTaken hwf hlife rfl
  · cases hstep

theorem Process.Wf.step (h : p.Wf P) {l : ProcessLabel} (hok : p.Contract l)
    (hstep : p.step P l = some p') : p'.Wf P := by
  cases l with
  | construct => exact h.construct hstep
  | client => exact h.client hok hstep
  | destroy => exact h.destroy hok hstep
  | stopped => exact h.stopped hstep
  | take => exact h.take hstep
  | release => exact h.release hstep

theorem processWf_of_reach (h : (processLts P).Reach Process.Contract p) : p.Wf P := by
  refine h.invariant ?_ ?_
  · rintro p rfl
    refine ⟨?_, ?_, ?_, ?_, rfl, .nil⟩ <;> simp [Process.life]
  · intro p l q hok hstep hp
    exact hp.step hok hstep

/-! ## Nothing is used after it is released -/

/-- A quiet client without calls cannot move. -/
theorem Sys.Quiescent.stuck {config : Config} {s s' : Sys} (h : s.Quiescent) (hwf : s.Wf)
    (hcalls : ∀ k, s.calls k = none) {l : Label} (hstep : s.step P config l = some s') :
    (∃ ticks, l = .tick ticks) ∨ ∃ k op, l = .invoke k none op := by
  cases l with
  | tick ticks => exact .inl ⟨ticks, rfl⟩
  | invoke k caller op =>
    have hstep' : s.invoke k caller op = some s' := hstep
    cases caller with
    | none => exact .inr ⟨k, op, rfl⟩
    | some w =>
      -- a callback would be a thread that is not done
      have hwf' := hwf.step hstep
      obtain ⟨t, ht, hnested⟩ := hwf'.calls.nested k _ w (Sys.invoke_self hstep') rfl
      have hphase := hwf'.workers.waiting w t ht (by rw [hnested]; rfl)
      obtain ⟨u, hu, hpc⟩ := (Sys.invoke_samePlaces hstep').thread ht
      rw [← hpc, h.done hwf hu] at hphase
      cases hphase
  | collect k =>
    obtain ⟨call, -, hk, -⟩ := Sys.collect_returned (s := s) hstep
    rw [hcalls k] at hk
    cases hk
  | call k choice =>
    simp [Sys.step, hcalls k] at hstep
  | worker w choice =>
    cases Sys.step_move hstep with
    | places label => simp at label
    | worker _ ht _ move => exact absurd (by rw [h.done hwf ht]; rfl) move.lifecycle.1

/-- In every run in which the users keep the contract: a client whose
storage is released has no thread to join, none running, no call and no
socket, and can take no step; the deferred destroyer releases what it was
given, in that order, once. -/
theorem destroyed_is_quiet (P : Platform) {p : Process}
    (h : (processLts P).Reach Process.Contract p) :
    (∀ id slot, p.clients id = some slot → slot.life = .freed →
      slot.sys.shared.worker = none ∧ slot.sys.shared.joining = false ∧
      slot.sys.shared.transport.socket = none ∧
      (∀ w t, slot.sys.workers w = some t → t.pc = .done) ∧
      (∀ c, slot.sys.calls c = none) ∧
      ∀ l, p.Contract (.client id l) → (∀ ticks, l ≠ .tick ticks) →
        p.step P (.client id l) = none) ∧
    p.enqueued = p.released ++ p.current.toList ++ p.pending ∧ p.enqueued.Nodup ∧
    ∀ id ∈ p.released, p.life id = some .freed := by
  have hwf := processWf_of_reach h
  refine ⟨?_, hwf.books, hwf.once, hwf.released⟩
  intro id slot hslot hfreed
  obtain ⟨hreach, hlife⟩ := hwf.slots id slot hslot
  rw [hfreed] at hlife
  obtain ⟨hquiet, hcalls⟩ := hlife
  have hsys := wf_of_reachable hreach
  have hidle := hsys.idle_of_no_worker hquiet.worker hquiet.joining
  refine ⟨hquiet.worker, hquiet.joining, (socketWf_of_reachable hreach).idle hidle.active,
    fun w t ht => hquiet.done hsys ht, hcalls, ?_⟩
  intro l hok htick
  by_contra hne
  obtain ⟨p', hstep⟩ := Option.ne_none_iff_exists'.mp hne
  simp only [Process.step, hslot, Option.bind_some] at hstep
  split at hstep
  · cases hstep
  obtain ⟨s, hs, -⟩ := Option.map_eq_some_iff.mp hstep
  rcases hquiet.stuck hsys hcalls hs with ⟨ticks, rfl⟩ | ⟨k, op, rfl⟩
  · exact htick ticks rfl
  · have := hok slot hslot
    rw [hfreed] at this
    cases this

/-- A destruction does not block. The `stop` of a destructor called from
the sample callback never gets to a place where a call waits for a
thread, and in every other stage the chain of what the destruction waits
for ends in something that can move. -/
theorem destruction_proceeds (P : Platform) {p : Process}
    (h : (processLts P).Reach Process.Contract p) {id : Nat} {slot : Slot}
    (hslot : p.clients id = some slot) :
    (∀ w c self, slot.life = .stopping (some w) c self →
      self = true ∧ ∃ call, slot.sys.calls c = some call ∧ call.pc.outside = false) ∧
    ∀ c, slot.life.call? = some c →
      ∃ q, Relation.ReflTransGen slot.sys.WaitsFor (.call c) q ∧
        slot.sys.CanGo P slot.config q := by
  obtain ⟨hreach, hlife⟩ := (processWf_of_reach h).slots id slot hslot
  have hsys := wf_of_reachable hreach
  constructor
  · intro w c self hstopping
    rw [hstopping] at hlife
    obtain ⟨rfl, hstops⟩ := hlife
    obtain ⟨call, hc, hcaller, -⟩ := hstops.call
    refine ⟨rfl, call, hc, ?_⟩
    by_contra hout
    have := hsys.calls.outside c call hc (by simpa using hout)
    rw [hcaller] at this
    cases this
  · intro c hcall
    have hpresent : ∃ caller, slot.sys.Stops caller c := by
      obtain ⟨config, sys, life⟩ := slot
      cases life <;> cases hcall
      · exact ⟨_, hlife.2⟩
      · exact ⟨_, hlife⟩
      · exact ⟨_, hlife.2⟩
    obtain ⟨caller, hstops⟩ := hpresent
    obtain ⟨call, hc, -, hplace⟩ := hstops.call
    refine hsys.unblocked_call (nestedWf_of_reachable hreach) hc ?_
    rcases hplace with hpart | ⟨result, hreturned⟩
    · cases hpc : call.pc <;> rw [hpc] at hpart <;> first | rfl | cases hpart
    · rw [hreturned]
      rfl

end Steps

/-! ## A callback that destroys its client -/

/-- Steps of the only client while it is owned, whose calls all have the
number 0. -/
def ownedCheck (p : Process) : ProcessLabel → Bool
  | .construct _ _ _ => true
  | .client id (.invoke k _ _) => decide (k = 0 ∧ p.life id = some .owned)
  | .client _ _ => true
  | _ => false

/-- Steps of a destruction under way, without further use of the client. -/
def destructionCheck (_ : Process) : ProcessLabel → Bool
  | .client _ (.invoke _ _ _) | .destroy _ _ _ => false
  | _ => true

theorem owned_of_life {p : Process} {id : Nat} (h : p.life id = some .owned) :
    ∀ slot, p.clients id = some slot → slot.life = .owned := by
  intro slot hslot
  simpa [Process.life, hslot] using h

theorem contract_of_owned {p : Process} {l : ProcessLabel} (h : ownedCheck p l = true) :
    p.Contract l := by
  cases l with
  | client id l =>
    cases l with
    | invoke k caller op =>
      have howned := owned_of_life (of_decide_eq_true h).2
      cases caller with
      | none => exact howned
      | some w =>
        intro slot hslot
        rw [howned slot hslot]
        rfl
    | _ => trivial
  | destroy id caller c => cases h
  | _ => trivial

theorem contract_of_destruction {p : Process} {l : ProcessLabel}
    (h : destructionCheck p l = true) : p.Contract l := by
  cases l with
  | client id l =>
    cases l with
    | invoke k caller op => cases h
    | _ => trivial
  | destroy id caller c => cases h
  | _ => trivial

/-- In such a run no other call turns up. -/
theorem only_call_zero {P : Platform} {p q : Process} {ls : List ProcessLabel}
    (hp : (processLts P).Path (fun p l => ownedCheck p l = true) p ls q)
    (h : ∀ id slot, p.clients id = some slot → ∀ k call, slot.sys.calls k = some call → k = 0) :
    ∀ id slot, q.clients id = some slot → ∀ k call, slot.sys.calls k = some call → k = 0 := by
  induction hp with
  | nil => exact h
  | @cons p r q l ls hok hstep _ ih =>
    refine ih fun id slot hslot k call hk => ?_
    have hset : ∀ (j : Nat) (slot' : Slot),
        (∀ call', slot'.sys.calls k = some call' → k = 0) →
        (p.setClient j slot').clients id = some slot → k = 0 := by
      intro j slot' hslot' hr
      by_cases hj : id = j
      · subst hj
        simp only [Process.setClient, Function.update_self, Option.some.injEq] at hr
        exact hslot' call (hr ▸ hk)
      · exact h id slot (by simpa [Process.setClient, hj] using hr) k call hk
    cases l with
    | construct j config clock =>
      simp only [processLts, Process.step] at hstep
      split at hstep
      · cases hstep
      · split at hstep
        · cases hstep
        · cases hstep
          exact hset j _ (fun call' hc => by cases hc) hslot
    | client j l =>
      simp only [processLts, Process.step] at hstep
      obtain ⟨slot', hslot', hstep⟩ := Option.bind_eq_some_iff.mp hstep
      split at hstep
      · cases hstep
      obtain ⟨s, hs, rfl⟩ := Option.map_eq_some_iff.mp hstep
      refine hset j _ (fun call' hc => ?_) hslot
      rcases Sys.step_calls hs hc with ⟨-, other, hold, -⟩ | ⟨op, rfl⟩
      · exact h j slot' hslot' k other hold
      · exact (of_decide_eq_true hok).1
    | _ => cases hok

/-- One client, up to its first callback. -/
def firstCallback : List ProcessLabel :=
  .construct 0 overrideConfig 1000
    :: (streamingRun.take 24 ++ [Label.collect 0]).map (.client 0)

/-- Behind the destructor: its `stop`, the deferred destroyer, the end of
the thread and the `stop` of `~Impl`. -/
def deferredDestruction : List ProcessLabel :=
  [.client 0 (.call 5 .go), .client 0 (.call 5 (.send .sent)), .client 0 (.call 5 .go),
   .stopped 0 6, .take 6, .client 0 (.call 6 .go), .client 0 (.call 6 (.send .sent)),
   .client 0 (.call 6 .go), .client 0 (.worker 0 .callbackReturns), .client 0 (.worker 0 .go),
   .client 0 (.worker 0 .go), .client 0 (.worker 0 (.send .sent)), .client 0 (.worker 0 .go),
   .client 0 (.worker 0 (.send .sent)), .client 0 (.worker 0 .go), .client 0 (.worker 0 .go),
   .client 0 (.call 6 .go), .stopped 0 7, .client 0 (.call 7 .go),
   .client 0 (.call 7 (.send .sent)), .client 0 (.call 7 .go), .release 0]

/-- The callback's destructor, and `n` steps behind it. -/
theorem callbackDestroys (n : Nat) {f : Process → Bool}
    (h : (((processLts exactPlatform).execChecked ownedCheck {} firstCallback).bind fun p =>
      if (p.clients 0).all fun slot => (slot.sys.calls 0).isNone then
        (p.step exactPlatform (.destroy 0 (some 0) 5)).bind fun q =>
          ((processLts exactPlatform).execChecked destructionCheck q
            (deferredDestruction.take n)).map f
      else none) = some true) :
    ∃ p, (processLts exactPlatform).Reach Process.Contract p ∧ f p = true := by
  obtain ⟨p, hp, h⟩ := Option.bind_eq_some_iff.mp h
  split at h
  · rename_i hnone
    obtain ⟨q, hq, h⟩ := Option.bind_eq_some_iff.mp h
    obtain ⟨r, hr, hf⟩ := Option.map_eq_some_iff.mp h
    have hfirst : (processLts exactPlatform).Path (fun p l => ownedCheck p l = true) {}
        firstCallback p := Lts.path_of_execChecked ownedCheck (fun _ _ hc => hc) hp
    have hcalls := only_call_zero hfirst (by simp)
    have hreach : (processLts exactPlatform).Reach Process.Contract p :=
      (Lts.path_of_execChecked ownedCheck (fun _ _ => contract_of_owned) hp).reach (.init rfl)
    have hcontract : p.Contract (.destroy 0 (some 0) 5) := by
      intro slot hslot c call hc
      obtain rfl := hcalls 0 slot hslot c call hc
      simp [hslot, hc] at hnone
    have hrest : (processLts exactPlatform).Path Process.Contract q
      (deferredDestruction.take n) r :=
      Lts.path_of_execChecked destructionCheck (fun _ _ => contract_of_destruction) hr
    exact ⟨r, hrest.reach (hreach.step hcontract hq), hf⟩
  · cases h

/-- The client is released, and nothing is left of its run. -/
theorem destroyed_is_quiet_deferred :
    ∃ p slot, (processLts exactPlatform).Reach Process.Contract p ∧ p.clients 0 = some slot ∧
      slot.life = .freed ∧ slot.sys.created = 1 ∧ p.released = [0] ∧
      (∀ w t, slot.sys.workers w = some t → t.pc = .done) ∧
      slot.sys.shared.transport.socket = none := by
  obtain ⟨p, hp, hf⟩ := callbackDestroys 22
    (f := fun p : Process => decide (p.released = [0] ∧ (p.clients 0).map (fun slot =>
      (slot.life, slot.sys.created)) = some (.freed, 1)))
    (by decide +kernel)
  obtain ⟨hreleased, hslot⟩ := of_decide_eq_true hf
  obtain ⟨slot, hslot, heq⟩ := Option.map_eq_some_iff.mp hslot
  obtain ⟨hfreed, hcreated⟩ := Prod.mk.inj heq
  obtain ⟨-, -, hsocket, hdone, -⟩ := (destroyed_is_quiet exactPlatform hp).1 0 slot hslot hfreed
  exact ⟨p, slot, hp, hslot, hfreed, hcreated, hreleased, hdone, hsocket⟩

/-- The deferred destroyer waits for the thread that is still inside the
callback. -/
theorem destruction_proceeds_deferred :
    ∃ p slot, (processLts exactPlatform).Reach Process.Contract p ∧ p.clients 0 = some slot ∧
      slot.sys.calls 6 = some ⟨none, .stop, .stopJoin 0⟩ ∧
      ∃ q, Relation.ReflTransGen slot.sys.WaitsFor (.call 6) q ∧
        slot.sys.CanGo exactPlatform slot.config q := by
  obtain ⟨p, hp, hf⟩ := callbackDestroys 8
    (f := fun p : Process => decide ((p.clients 0).map (fun slot =>
      (slot.life.call?, slot.sys.calls 6)) = some (some 6, some ⟨none, .stop, .stopJoin 0⟩)))
    (by decide +kernel)
  obtain ⟨slot, hslot, heq⟩ := Option.map_eq_some_iff.mp (of_decide_eq_true hf)
  obtain ⟨hcall, hjoin⟩ := Prod.mk.inj heq
  exact ⟨p, slot, hp, hslot, hjoin,
    (destruction_proceeds exactPlatform hp hslot).2 6 hcall⟩

end PyNetFT.Core
