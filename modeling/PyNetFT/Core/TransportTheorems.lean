/-
PyNetFT.Core.TransportTheorems — the transport keeps to its own
descriptors, and refines the transport of `Core.Worker`.

`Net.Wf` says which descriptors the transport holds: the one in `socket_`
and, inside `connect`, the one being tried. While `receive` runs, its copy
of the descriptor is the one in `socket_`, because only the owner changes
that member; so a number that was handed out again is never polled or
read by mistake (`descriptors_owned`), and nothing is left open behind a
destructor.

On Windows `WSAPoll` does not return when the socket is shut down, which
is why `receive` waits in slices: `shutdown_noticed` bounds what is left
of a wait after a shutdown. On POSIX every run is a run of the transport
that the receive thread was proved with (`transport_refines`).
-/
import PyNetFT.Core.Transport
import PyNetFT.Lib.Ranking

namespace PyNetFT.Core

open PyNetFT.Lib

/-! ## The invariant -/

/-- The descriptor `connect` is trying. -/
def OwnerPc.candidate? : OwnerPc → Option Nat
  | .connect descriptor _ _ | .discard descriptor _ _ | .adopt descriptor => some descriptor
  | _ => none

/-- The locals of a `receive` under way. -/
def OwnerPc.receiving? : OwnerPc → Option Receiving
  | .head r | .wait r _ _ | .expired r | .ready r _ | .waitFailed r _ | .recv r => some r
  | _ => none

structure Net.Wf (s : Net) : Prop where
  used : ∀ u ∈ s.used, u.holder = some .transport
  socket : ∀ n, s.transport.socket = some n → s.table n = some .transport
  candidate : ∀ n, s.owner.candidate? = some n →
    s.table n = some .transport ∧ s.transport.socket ≠ some n
  held : ∀ n, s.table n = some .transport →
    s.transport.socket = some n ∨ s.owner.candidate? = some n
  receiving : ∀ r, s.owner.receiving? = some r → s.transport.socket = some r.descriptor
  valid : ∀ r revents, s.owner = .ready r revents ∨ s.owner = .waitFailed r revents →
    revents.nval = false
  destroyed : s.destroyed = true → s.owner.idle = true ∧ s.transport.socket = none

section Owner

variable {P : Platform} {os : Os} {T : ErrorTexts} {answer : Answer} {s s' : Net} {pc' : OwnerPc}

/-- A step that moves the owner and makes system calls on the socket. -/
structure Net.Kept (s s' : Net) : Prop where
  table : s'.table = s.table
  transport : s'.transport = s.transport
  clock : s'.clock = s.clock
  destroyed : s'.destroyed = s.destroyed
  used : ∃ calls, s'.used = s.used ++ calls ∧ ∀ u ∈ calls, u.holder = s.table u.descriptor ∧
    (s.transport.socket = some u.descriptor ∨ s.owner.candidate? = some u.descriptor)

theorem Net.Kept.refl (s : Net) : s.Kept s :=
  ⟨rfl, rfl, rfl, rfl, [], by simp, by simp⟩

theorem Net.kept_use (s : Net) (call : SystemCall) {n : Nat}
    (h : s.transport.socket = some n ∨ s.owner.candidate? = some n) : s.Kept (s.use call n) :=
  ⟨rfl, rfl, rfl, rfl, [⟨call, n, s.table n⟩], rfl, by simpa using h⟩

theorem Net.Wf.used_kept (h : s.Wf) (hkept : s.Kept s') :
    ∀ u ∈ s'.used, u.holder = some .transport := by
  obtain ⟨calls, hcalls, hown⟩ := hkept.used
  intro u hu
  rw [hcalls] at hu
  rcases List.mem_append.mp hu with hu | hu
  · exact h.used u hu
  · obtain ⟨hholder, hplace⟩ := hown u hu
    rw [hholder]
    rcases hplace with hsocket | hcandidate
    · exact h.socket _ hsocket
    · exact (h.candidate _ hcandidate).1

/-- A step within the table. -/
theorem Net.Wf.kept (h : s.Wf) (hkept : s.Kept s')
    (hcandidate : pc'.candidate? = s.owner.candidate?)
    (hreceiving : ∀ r, pc'.receiving? = some r → s.transport.socket = some r.descriptor)
    (hvalid : ∀ r revents, pc' = .ready r revents ∨ pc' = .waitFailed r revents →
      revents.nval = false)
    (hdestroyed : s.destroyed = true → pc'.idle = true) : ({ s' with owner := pc' } : Net).Wf where
  used := by
    show ∀ u ∈ s'.used, u.holder = some .transport
    exact h.used_kept hkept
  socket := by
    show ∀ n, s'.transport.socket = some n → s'.table n = some .transport
    rw [hkept.transport, hkept.table]
    exact h.socket
  candidate := by
    show ∀ n, pc'.candidate? = some n → s'.table n = some .transport ∧ s'.transport.socket ≠ some n
    rw [hkept.transport, hkept.table, hcandidate]
    exact h.candidate
  held := by
    show ∀ n, s'.table n = some .transport → s'.transport.socket = some n ∨ pc'.candidate? = some n
    rw [hkept.transport, hkept.table, hcandidate]
    exact h.held
  receiving := by
    show ∀ r, pc'.receiving? = some r → s'.transport.socket = some r.descriptor
    rw [hkept.transport]
    exact hreceiving
  valid := hvalid
  destroyed := by
    show s'.destroyed = true → pc'.idle = true ∧ s'.transport.socket = none
    rw [hkept.destroyed, hkept.transport]
    exact fun hd => ⟨hdestroyed hd, (h.destroyed hd).2⟩

/-- The descriptor that is being tried is closed, and only that. -/
theorem Net.Wf.discard (h : s.Wf) {n : Nat} (hn : s.owner.candidate? = some n)
    (hpc' : pc'.candidate? = none ∧ pc'.receiving? = none ∧
      ∀ r revents, pc' ≠ .ready r revents ∧ pc' ≠ .waitFailed r revents)
    (hidle : s.owner.idle = false) : ({ s.release n with owner := pc' } : Net).Wf where
  used := by
    show ∀ u ∈ (s.use .close n).used, u.holder = some .transport
    exact h.used_kept (s.kept_use .close (.inr hn))
  socket := by
    intro m hm
    have hne : m ≠ n := by
      rintro rfl
      exact (h.candidate m hn).2 hm
    simpa [Net.release, hne] using h.socket m hm
  candidate := by
    intro m hm
    rw [hpc'.1] at hm
    cases hm
  held := by
    intro m hm
    by_cases hne : m = n
    · simp [Net.release, hne] at hm
    · have hold : s.table m = some .transport := by simpa [Net.release, hne] using hm
      rcases h.held m hold with hsocket | hcandidate
      · exact .inl hsocket
      · rw [hn] at hcandidate
        exact absurd (Option.some.inj hcandidate).symm hne
  receiving := by
    intro r hr
    rw [hpc'.2.1] at hr
    cases hr
  valid := by
    rintro r revents (heq | heq)
    · exact absurd heq (hpc'.2.2 r revents).1
    · exact absurd heq (hpc'.2.2 r revents).2
  destroyed := by
    intro hd
    rw [(h.destroyed hd).1] at hidle
    cases hidle

/-- The end of a successful `connect`: the old socket is closed, the
candidate takes its place. -/
theorem Net.Wf.adopt (h : s.Wf) {n : Nat} (howner : s.owner = .adopt n) :
    ({ s.adopt n with owner := .returned .done } : Net).Wf := by
  have hcandidate : s.owner.candidate? = some n := by rw [howner]; rfl
  obtain ⟨htable, hother⟩ := h.candidate n hcandidate
  have hlive : s.destroyed = true → False := by
    intro hd
    have := (h.destroyed hd).1
    rw [howner] at this
    cases this
  -- the table with and without an old socket
  have hrest : ∀ table : Nat → Option Holder, ∀ used : List Used,
      table n = some .transport → (∀ m, table m = some .transport → m = n) →
      (∀ u ∈ used, u.holder = some .transport) →
      ({ s with
        table := table, transport := ⟨some n, false⟩, owner := .returned .done,
        used := used } : Net).Wf := by
    intro table used hself honly hused
    refine ⟨hused, ?_, ?_, ?_, ?_, ?_, fun hd => (hlive hd).elim⟩
    · intro m hm
      cases hm
      exact hself
    · intro m hm
      cases hm
    · intro m hm
      exact .inl (by rw [honly m hm])
    · intro r hr
      cases hr
    · rintro r revents (heq | heq) <;> cases heq
  have hheld : ∀ m, s.table m = some .transport → s.transport.socket = some m ∨ m = n := by
    intro m hm
    rcases h.held m hm with hsocket | hc
    · exact .inl hsocket
    · rw [hcandidate] at hc
      exact .inr (Option.some.inj hc).symm
  unfold Net.adopt
  split
  · rename_i old hold
    have hne : n ≠ old := by
      rintro rfl
      exact hother hold
    have hused := h.used_kept (s.kept_use .close (.inl hold))
    refine hrest _ _ ?_ ?_ hused
    · simpa [Net.release, hne] using htable
    · intro m hm
      by_cases hmo : m = old
      · simp [Net.release, hmo] at hm
      · rcases hheld m (by simpa [Net.release, hmo] using hm) with hsocket | heq
        · rw [hold] at hsocket
          exact absurd (Option.some.inj hsocket).symm hmo
        · exact heq
  · rename_i hnone
    refine hrest _ _ htable ?_ h.used
    intro m hm
    rcases hheld m hm with hsocket | heq
    · rw [hnone] at hsocket
      cases hsocket
    · exact heq

/-- `close` and the destructor. -/
theorem Net.Wf.closeSocket (h : s.Wf) (hcandidate : s.owner.candidate? = none)
    (destroyed : Bool) :
    ({ s.closeSocket with owner := .returned .done, destroyed := destroyed } : Net).Wf := by
  have hheld : ∀ m, s.table m = some .transport → s.transport.socket = some m := by
    intro m hm
    rcases h.held m hm with hsocket | hc
    · exact hsocket
    · rw [hcandidate] at hc
      cases hc
  have hrest : ∀ table : Nat → Option Holder, ∀ used : List Used,
      (∀ m, table m ≠ some .transport) → (∀ u ∈ used, u.holder = some .transport) →
      ({ s with
        table := table, transport := ⟨none, true⟩, owner := .returned .done, used := used,
        destroyed := destroyed } : Net).Wf := by
    intro table used hnone hused
    refine ⟨hused, ?_, ?_, ?_, ?_, ?_, fun _ => ⟨rfl, rfl⟩⟩
    · intro m hm
      cases hm
    · intro m hm
      cases hm
    · intro m hm
      exact absurd hm (hnone m)
    · intro r hr
      cases hr
    · rintro r revents (heq | heq) <;> cases heq
  unfold Net.closeSocket
  split
  · rename_i old hold
    have hused := h.used_kept (s.kept_use .close (.inl hold))
    refine hrest _ _ ?_ hused
    intro m hm
    by_cases hmo : m = old
    · simp [Net.release, hmo] at hm
    · have hsocket := hheld m (by simpa [Net.release, hmo] using hm)
      rw [hold] at hsocket
      exact hmo (Option.some.inj hsocket).symm
  · rename_i hnone
    refine hrest _ _ ?_ h.used
    intro m hm
    have hsocket := hheld m hm
    rw [hnone] at hsocket
    cases hsocket

/-- A new descriptor for the next address. -/
theorem Net.Wf.opened (h : s.Wf) {n : Nat} {address : Address} {rest : List Address}
    (hfree : s.table n = none) (hcandidate : s.owner.candidate? = none)
    (hlive : s.owner.idle = false) :
    ({ s with
      table := Function.update s.table n (some .transport)
      owner := .connect n address rest } : Net).Wf := by
  have hne : ∀ m, s.table m = some .transport → m ≠ n := by
    rintro m hm rfl
    rw [hfree] at hm
    cases hm
  refine ⟨h.used, ?_, ?_, ?_, ?_, ?_, ?_⟩
  · intro m hm
    have hold := h.socket m hm
    simpa [hne m hold] using hold
  · intro m hm
    obtain rfl : n = m := Option.some.inj hm
    refine ⟨by simp, fun hsocket => ?_⟩
    exact hne _ (h.socket _ hsocket) rfl
  · intro m hm
    by_cases hmn : m = n
    · exact .inr (by rw [hmn]; rfl)
    · have hold : s.table m = some .transport := by simpa [hmn] using hm
      rcases h.held m hold with hsocket | hc
      · exact .inl hsocket
      · rw [hcandidate] at hc
        cases hc
  · intro r hr
    cases hr
  · rintro r revents (heq | heq) <;> cases heq
  · intro hd
    rw [(h.destroyed hd).1] at hlive
    cases hlive

/-! ## The steps -/

theorem Net.Wf.connectOwner (h : s.Wf) (hpart : s.owner.part = .connect)
    (hstep : connectOwner os T answer s s.owner = some (pc', s')) :
    ({ s' with owner := pc' } : Net).Wf := by
  have hlive : s.owner.idle = false := by
    cases howner : s.owner <;> rw [howner] at hpart <;> first | rfl | cases hpart
  have hdead : s.destroyed = true → pc'.idle = true := by
    intro hd
    rw [(h.destroyed hd).1] at hlive
    cases hlive
  -- a place outside `receive`, with the same candidate
  have hmove : ∀ pc, s.owner.candidate? = none → pc.candidate? = none → pc.part ≠ .receive →
      pc' = pc → s.Kept s' → ({ s' with owner := pc' } : Net).Wf := by
    rintro pc hold hnew hpart rfl hkept
    refine h.kept hkept (hnew.trans hold.symm) ?_ ?_ hdead
    · intro r hr
      cases hpc : pc' <;> rw [hpc] at hr hpart <;> first | (cases hr; done) | exact absurd rfl hpart
    · rintro r revents (rfl | rfl) <;> exact absurd rfl hpart
  cases howner : s.owner with
  | resolve host service =>
    rw [howner] at hstep hmove
    dsimp only [Core.connectOwner] at hstep
    split at hstep
    · cases hstep
      exact hmove _ rfl rfl (by simp [OwnerPc.part]) rfl (.refl s)
    · cases hstep
      exact hmove _ rfl rfl (by simp [OwnerPc.part]) rfl (.refl s)
    · cases hstep
  | socket addresses lastError =>
    rw [howner] at hstep hmove
    cases addresses with
    | nil =>
      cases hstep
      exact hmove _ rfl rfl (by simp [OwnerPc.part]) rfl (.refl s)
    | cons address rest =>
      dsimp only [Core.connectOwner] at hstep
      split at hstep
      · cases hstep
        exact hmove _ rfl rfl (by simp [OwnerPc.part]) rfl (.refl s)
      · split at hstep
        · cases hstep
        · rename_i hfree
          cases hstep
          exact h.opened (by simpa using hfree) (by rw [howner]; rfl) (by rw [howner]; rfl)
      · cases hstep
  | connect n address rest =>
    rw [howner] at hstep
    have hcandidate : s.owner.candidate? = some n := by rw [howner]; rfl
    have hkept := s.kept_use .connect (.inr hcandidate)
    dsimp only [Core.connectOwner] at hstep
    split at hstep
    · cases hstep
      refine h.kept hkept hcandidate.symm ?_ ?_ hdead
      · intro r hr
        cases hr
      · rintro r revents (heq | heq) <;> cases heq
    · cases hstep
      refine h.kept hkept hcandidate.symm ?_ ?_ hdead
      · intro r hr
        cases hr
      · rintro r revents (heq | heq) <;> cases heq
    · cases hstep
  | discard n rest lastError =>
    rw [howner] at hstep
    cases hstep
    exact h.discard (by rw [howner]; rfl) ⟨rfl, rfl, by simp⟩ hlive
  | adopt n =>
    rw [howner] at hstep
    cases hstep
    exact h.adopt howner
  | _ =>
    rw [howner] at hpart
    cases hpart

/-- What a step of `receive` can do: it goes on with the same locals, or
begins with those of the socket, or is over. -/
structure Net.ReceiveMove (s s' : Net) (pc' : OwnerPc) : Prop where
  kept : s.Kept s'
  candidate : pc'.candidate? = none
  receiving : ∀ r, pc'.receiving? = some r → s.transport.socket = some r.descriptor
  valid : ∀ r revents, pc' = .ready r revents ∨ pc' = .waitFailed r revents →
    revents.nval = false

theorem Net.Kept.over (h : s.Kept s') (hidle : pc'.idle = true) : s.ReceiveMove s' pc' := by
  cases pc' <;> cases hidle
  exact ⟨h, rfl, by simp [OwnerPc.receiving?], by simp⟩

theorem Net.Kept.nothing (h : s.Kept s') : s.ReceiveMove s' .nothing := h.over rfl

/-- It goes on, at a place that has not looked at `revents`. -/
theorem Net.Kept.goes_on (h : s.Kept s') {r : Receiving}
    (hsocket : s.transport.socket = some r.descriptor) (hr : pc'.receiving? = some r)
    (hplain : ∀ q revents, pc' ≠ .ready q revents ∧ pc' ≠ .waitFailed q revents) :
    s.ReceiveMove s' pc' where
  kept := h
  candidate := by cases pc' <;> first | rfl | cases hr
  receiving := by
    intro q hq
    rw [hr] at hq
    exact Option.some.inj hq ▸ hsocket
  valid := by
    rintro q revents (heq | heq)
    · exact absurd heq (hplain q revents).1
    · exact absurd heq (hplain q revents).2

/-- It goes on with `revents` of a descriptor that is open. -/
theorem Net.Kept.polled (h : s.Kept s') {r : Receiving} {revents : Revents}
    (hsocket : s.transport.socket = some r.descriptor) (hnval : revents.nval = false)
    (hpc' : pc' = .ready r revents ∨ pc' = .waitFailed r revents) : s.ReceiveMove s' pc' where
  kept := h
  candidate := by rcases hpc' with rfl | rfl <;> rfl
  receiving := by
    intro q hq
    rcases hpc' with rfl | rfl <;> cases hq <;> exact hsocket
  valid := by
    rintro q revents' (rfl | rfl) <;> rcases hpc' with heq | heq <;> cases heq <;> exact hnval

theorem receive_move {capacity timeout : Nat}
    (h : receiveOwner P os T answer s (.receive capacity timeout) = some (pc', s')) :
    s.ReceiveMove s' pc' := by
  dsimp only [receiveOwner] at h
  split at h
  · cases h
    exact (Net.Kept.refl s).over rfl
  · rename_i n hn
    split at h
    · cases h
      exact (Net.Kept.refl s).nothing
    · split at h
      · cases h
        exact (Net.Kept.refl s).over rfl
      · split at h <;> cases h <;> exact (Net.Kept.refl s).goes_on hn rfl (by simp)

theorem head_move {r : Receiving} (hsocket : s.transport.socket = some r.descriptor)
    (h : receiveOwner P os T answer s (.head r) = some (pc', s')) : s.ReceiveMove s' pc' := by
  dsimp only [receiveOwner] at h
  split at h
  · cases h
    exact (Net.Kept.refl s).nothing
  · cases h
    exact (Net.Kept.refl s).goes_on hsocket rfl (by simp)

/-- After `poll`, on either system. -/
theorem waitOwner_move {poll : PollAnswer} {r : Receiving} {ticks : Nat} {since : TimePoint}
    (hwf : s.Wf) (hsocket : s.transport.socket = some r.descriptor) (hkept : s.Kept s')
    (h : waitOwner os T poll s r ticks since = some pc') : s.ReceiveMove s' pc' := by
  cases poll with
  | expired =>
    dsimp only [waitOwner] at h
    split at h
    · cases os <;> cases h
      · exact hkept.nothing
      · exact hkept.goes_on hsocket rfl (by simp)
    · cases h
  | failed code =>
    dsimp only [waitOwner] at h
    split at h
    · cases os <;> cases h
      · split
        · exact hkept.nothing
        · exact hkept.goes_on hsocket (r := r) rfl (by simp)
      · exact hkept.nothing
    · cases h
      exact hkept.over rfl
  | ready revents =>
    dsimp only [waitOwner] at h
    split at h
    · rename_i hnval
      cases h
      exact hkept.polled hsocket (by rw [hnval, hwf.socket _ hsocket]; rfl) (.inl rfl)
    · cases h

theorem wait_move {r : Receiving} {ticks : Nat} {since : TimePoint} (hwf : s.Wf)
    (hsocket : s.transport.socket = some r.descriptor)
    (h : receiveOwner P os T answer s (.wait r ticks since) = some (pc', s')) :
    s.ReceiveMove s' pc' := by
  dsimp only [receiveOwner] at h
  split at h
  · obtain ⟨pc, hwait, heq⟩ := Option.map_eq_some_iff.mp h
    cases heq
    exact waitOwner_move hwf hsocket (s.kept_use .poll (.inl hsocket)) hwait
  · cases h

theorem expired_move {r : Receiving} (hsocket : s.transport.socket = some r.descriptor)
    (h : receiveOwner P os T answer s (.expired r) = some (pc', s')) : s.ReceiveMove s' pc' := by
  dsimp only [receiveOwner] at h
  split at h
  · cases h
    exact (Net.Kept.refl s).nothing
  · cases h
    exact (Net.Kept.refl s).goes_on hsocket rfl (by simp)

theorem ready_move {r : Receiving} {revents : Revents} (hnval : revents.nval = false)
    (hsocket : s.transport.socket = some r.descriptor)
    (h : receiveOwner P os T answer s (.ready r revents) = some (pc', s')) :
    s.ReceiveMove s' pc' := by
  dsimp only [receiveOwner] at h
  split at h
  · cases h
    exact (Net.Kept.refl s).nothing
  · cases os with
    | posix =>
      dsimp only at h
      rw [hnval] at h
      cases h
      exact (Net.Kept.refl s).goes_on hsocket rfl (by simp)
    | windows =>
      dsimp only at h
      split at h
      · cases h
        exact (Net.Kept.refl s).polled hsocket hnval (.inr rfl)
      · cases h
        exact (Net.Kept.refl s).goes_on hsocket rfl (by simp)

theorem waitFailed_move {r : Receiving} {revents : Revents}
    (hsocket : s.transport.socket = some r.descriptor)
    (h : receiveOwner P os T answer s (.waitFailed r revents) = some (pc', s')) :
    s.ReceiveMove s' pc' := by
  dsimp only [receiveOwner] at h
  split at h
  · cases h
    split
    · exact (s.kept_use .getsockopt (.inl hsocket)).over rfl
    · exact (Net.Kept.refl s).over rfl
  · cases h

theorem recv_move {r : Receiving} (hsocket : s.transport.socket = some r.descriptor)
    (h : receiveOwner P os T answer s (.recv r) = some (pc', s')) : s.ReceiveMove s' pc' := by
  have hkept := s.kept_use .recv (.inl hsocket)
  dsimp only [receiveOwner] at h
  split at h
  · cases h
    exact hkept.over rfl
  · cases os <;> cases h
    · dsimp only
      split
      · exact hkept.nothing
      · exact hkept.over rfl
    · exact ⟨hkept, rfl, by simp [OwnerPc.receiving?], by simp⟩
  · cases h

theorem recvFailed_move {code : Int}
    (h : receiveOwner P os T answer s (.recvFailed code) = some (pc', s')) :
    s.ReceiveMove s' pc' := by
  dsimp only [receiveOwner] at h
  split at h
  · cases h
    exact (Net.Kept.refl s).nothing
  · split at h <;> cases h
    · exact (Net.Kept.refl s).nothing
    · exact (Net.Kept.refl s).over rfl

theorem receiveOwner_move (h : s.Wf) (hpart : s.owner.part = .receive)
    (hstep : receiveOwner P os T answer s s.owner = some (pc', s')) : s.ReceiveMove s' pc' := by
  have hreceiving := h.receiving
  have hvalid := h.valid
  cases howner : s.owner with
  | receive capacity timeout =>
    rw [howner] at hstep
    exact receive_move hstep
  | head r =>
    rw [howner] at hstep hreceiving
    exact head_move (hreceiving r rfl) hstep
  | wait r ticks since =>
    rw [howner] at hstep hreceiving
    exact wait_move h (hreceiving r rfl) hstep
  | expired r =>
    rw [howner] at hstep hreceiving
    exact expired_move (hreceiving r rfl) hstep
  | ready r revents =>
    rw [howner] at hstep hreceiving hvalid
    exact ready_move (hvalid r revents (.inl rfl)) (hreceiving r rfl) hstep
  | waitFailed r revents =>
    rw [howner] at hstep hreceiving
    exact waitFailed_move (hreceiving r rfl) hstep
  | recv r =>
    rw [howner] at hstep hreceiving
    exact recv_move (hreceiving r rfl) hstep
  | recvFailed code =>
    rw [howner] at hstep
    exact recvFailed_move hstep
  | _ =>
    rw [howner] at hpart
    cases hpart

theorem Net.Wf.ownerStep (h : s.Wf) (hstep : ownerStep P os T answer s = some (pc', s')) :
    ({ s' with owner := pc' } : Net).Wf := by
  unfold Core.ownerStep at hstep
  split at hstep
  · rename_i hpart
    exact h.connectOwner hpart hstep
  · rename_i hpart
    obtain ⟨hkept, hcandidate, hreceiving, hvalid⟩ := receiveOwner_move h hpart hstep
    have hold : s.owner.candidate? = none := by
      cases howner : s.owner <;> rw [howner] at hpart <;> first | rfl | cases hpart
    refine h.kept hkept (hcandidate.trans hold.symm) hreceiving hvalid ?_
    intro hd
    have hidle := (h.destroyed hd).1
    cases howner : s.owner <;> rw [howner] at hpart hidle <;>
      first | (cases hidle; done) | cases hpart
  · rename_i hpart
    cases howner : s.owner with
    | close =>
      rw [howner] at hstep
      cases hstep
      exact h.closeSocket (by rw [howner]; rfl) s.closeSocket.destroyed
    | destroy =>
      rw [howner] at hstep
      cases hstep
      exact h.closeSocket (by rw [howner]; rfl) true
    | _ =>
      rw [howner] at hstep
      cases hstep

/-- The rest of the process opens and closes descriptors of its own. -/
theorem Net.Wf.others (h : s.Wf) {n : Nat} {holder : Option Holder}
    (hbefore : s.table n ≠ some .transport) (hafter : holder ≠ some .transport) :
    ({ s with table := Function.update s.table n holder } : Net).Wf := by
  have hsame : ∀ m, Function.update s.table n holder m = some .transport ↔
      s.table m = some .transport := by
    intro m
    by_cases hm : m = n
    · subst hm
      simp [hbefore, hafter]
    · simp [hm]
  refine ⟨h.used, ?_, ?_, ?_, h.receiving, h.valid, h.destroyed⟩
  · exact fun m hm => (hsame m).mpr (h.socket m hm)
  · exact fun m hm => ⟨(hsame m).mpr (h.candidate m hm).1, (h.candidate m hm).2⟩
  · exact fun m hm => h.held m ((hsame m).mp hm)

theorem Net.Wf.step (h : s.Wf) {l : NetLabel} (hstep : s.step P os T l = some s') : s'.Wf := by
  cases l with
  | tick ticks =>
    cases hstep
    exact ⟨h.used, h.socket, h.candidate, h.held, h.receiving, h.valid, h.destroyed⟩
  | begin op =>
    simp only [Net.step] at hstep
    split at hstep
    · rename_i hidle
      cases hstep
      simp only [Bool.and_eq_true, Bool.not_eq_true'] at hidle
      have hnone : s.owner.candidate? = none := by
        cases howner : s.owner <;> rw [howner] at hidle <;>
          first | rfl | cases hidle.1
      refine h.kept (.refl s) ?_ ?_ ?_ ?_
      · rw [hnone]
        cases op <;> rfl
      · intro r hr
        cases op <;> cases hr
      · rintro r revents (heq | heq) <;> cases op <;> cases heq
      · intro hd
        rw [hidle.2] at hd
        cases hd
    · cases hstep
  | owner answer =>
    obtain ⟨⟨pc', u⟩, howner, rfl⟩ := Option.map_eq_some_iff.mp hstep
    exact h.ownerStep howner
  | send command answer =>
    simp only [Net.step] at hstep
    split at hstep
    · cases hstep
    · rename_i hlive
      cases hstep
      split
      · rename_i n hn
        exact h.kept (s.kept_use .send (.inl hn)) rfl h.receiving h.valid
          (fun hd => (h.destroyed hd).1)
      · exact h
  | shutdown =>
    simp only [Net.step] at hstep
    split at hstep
    · cases hstep
    · rename_i hlive
      cases hstep
      have hflag : ({ s with
          transport := { s.transport with shutdownRequested := true } } : Net).Wf :=
        ⟨h.used, h.socket, h.candidate, h.held, h.receiving, h.valid, h.destroyed⟩
      split
      · rename_i n hn
        have hkept := Net.kept_use { s with
          transport := { s.transport with shutdownRequested := true } } .shutdown (.inl hn)
        exact hflag.kept hkept rfl h.receiving h.valid
          (fun hd => (h.destroyed hd).1)
      · exact hflag
  | otherOpens n =>
    simp only [Net.step] at hstep
    split at hstep
    · cases hstep
    · rename_i hfree
      cases hstep
      have hnone : s.table n = none := by simpa using hfree
      exact h.others (by rw [hnone]; simp) (by simp)
  | otherCloses n =>
    simp only [Net.step] at hstep
    split at hstep
    · rename_i hother
      cases hstep
      exact h.others (by rw [hother]; simp) (by simp)
    · cases hstep

theorem netWf_of_reachable (h : (netLts P os T).Reachable s) : s.Wf := by
  refine Lts.Reach.invariant ?_ ?_ h
  · rintro s ⟨table, clock, hnone, rfl⟩
    refine ⟨by simp, by simp, by simp [OwnerPc.candidate?], ?_, by simp [OwnerPc.receiving?],
      by simp, by simp⟩
    exact fun n hn => absurd hn (hnone n)
  · intro s l t _ hstep hs
    exact hs.step hstep

end Owner

/-- For every run on either system, with any other threads sending and
shutting down and descriptor numbers handed out again at any time: each
system call of the transport is made on a descriptor it holds; what it
holds is its socket and the candidate of a `connect` under way, and
nothing after its destruction; a `receive` waits on the socket that is
still its own, so that no `poll` finds the descriptor invalid. -/
theorem descriptors_owned (P : Platform) (os : Os) (T : ErrorTexts) {s : Net}
    (h : (netLts P os T).Reachable s) :
    (∀ u ∈ s.used, u.holder = some .transport) ∧
    (∀ n, s.table n = some .transport ↔
      s.transport.socket = some n ∨ s.owner.candidate? = some n) ∧
    (∀ r, s.owner.receiving? = some r → s.transport.socket = some r.descriptor) ∧
    (∀ r revents, s.owner = .ready r revents → revents.nval = false) ∧
    (s.destroyed = true → ∀ n, s.table n ≠ some .transport) := by
  have hwf := netWf_of_reachable h
  refine ⟨hwf.used, ?_, hwf.receiving, fun r revents hr => hwf.valid r revents (.inl hr), ?_⟩
  · intro n
    refine ⟨hwf.held n, ?_⟩
    rintro (hsocket | hcandidate)
    · exact hwf.socket n hsocket
    · exact (hwf.candidate n hcandidate).1
  · intro hd n hn
    obtain ⟨hidle, hnone⟩ := hwf.destroyed hd
    rcases hwf.held n hn with hsocket | hcandidate
    · rw [hnone] at hsocket
      cases hsocket
    · cases howner : s.owner <;> rw [howner] at hidle hcandidate <;>
        first | (cases hidle; done) | cases hcandidate

def plainTexts : ErrorTexts := ⟨fun _ => "error", fun _ => "unknown host"⟩

theorem netLts_init (P : Platform) (os : Os) (T : ErrorTexts) : (netLts P os T).Reachable {} :=
  .init ⟨fun _ => none, 0, fun _ => (by simp), rfl⟩

/-- A `connect` whose first address refuses; the number of that socket is
taken by somebody else. Then a `receive` up to its wait. -/
def secondAddress : List NetLabel :=
  [.begin (.connect "sensor" 49152), .owner (.addresses [0, 1]), .owner (.socket 3),
   .owner (.refused 111), .owner .go, .otherOpens 3, .owner (.socket 4), .owner .connected,
   .owner .go, .begin (.receive 65536 100000000), .owner .go]

/-- What is tried and closed before does not concern the other holder. -/
theorem descriptors_owned_reused :
    ∃ s, (netLts exactPlatform .posix plainTexts).Reachable s ∧ s.transport.socket = some 4 ∧
      s.table 3 = some .other ∧ s.used.map (fun u => (u.call, u.descriptor))
        = [(.connect, 3), (.close, 3), (.connect, 4)] ∧
      ∀ u ∈ s.used, u.holder = some .transport := by
  obtain ⟨s, hs, hp⟩ := Lts.exists_of_exec (l := secondAddress)
    (p := fun s : Net => decide (s.transport.socket = some 4 ∧ s.table 3 = some .other ∧
      s.used.map (fun u => (u.call, u.descriptor))
        = [(.connect, 3), (.close, 3), (.connect, 4)]))
    (netLts_init exactPlatform .posix plainTexts) (by decide +kernel)
  obtain ⟨hsocket, hother, hused⟩ := of_decide_eq_true hp
  exact ⟨s, hs, hsocket, hother, hused, (descriptors_owned exactPlatform .posix plainTexts hs).1⟩

/-! ## A shutdown is noticed -/

/-- How many steps a `receive` still takes once a shutdown is requested. -/
def OwnerPc.shutdownRank : OwnerPc → Nat
  | .wait _ _ _ => 3
  | .expired _ | .recv _ => 2
  | .receive _ _ | .head _ | .ready _ _ | .waitFailed _ _ | .recvFailed _ => 1
  | _ => 0

/-- A step of the owner other than a `poll` that a signal interrupts. -/
def NetLabel.advances (os : Os) : NetLabel → Bool
  | .owner (.poll (.failed code)) => decide (code ≠ os.interrupted)
  | .owner _ => true
  | _ => false

/-- Inside a `receive`, or behind it, with the shutdown requested. -/
def Net.ShuttingDown (s : Net) : Prop :=
  s.transport.shutdownRequested = true ∧ (s.owner.part = .receive ∨ s.owner.idle = true)

section Shutdown

variable {P : Platform} {os : Os} {T : ErrorTexts} {s s' : Net}

theorem waitOwner_shutdownRank {answer : PollAnswer} {r : Receiving} {ticks : Nat}
    {since : TimePoint} {pc' : OwnerPc} (h : waitOwner os T answer s r ticks since = some pc') :
    (pc'.part = .receive ∨ pc'.idle = true) ∧
      pc'.shutdownRank + (if NetLabel.advances os (.owner (.poll answer)) then 1 else 0) ≤ 3 := by
  cases answer with
  | expired =>
    dsimp only [waitOwner] at h
    split at h
    · cases os <;> cases h
      · exact ⟨.inr rfl, by simp [OwnerPc.nothing, OwnerPc.shutdownRank, NetLabel.advances]⟩
      · exact ⟨.inl rfl, by simp [OwnerPc.shutdownRank, NetLabel.advances]⟩
    · cases h
  | failed code =>
    dsimp only [waitOwner] at h
    split at h
    · rename_i hcode
      cases os with
      | posix =>
        obtain rfl := Option.some.inj h
        split
        · exact ⟨.inr rfl, by simp [OwnerPc.nothing, OwnerPc.shutdownRank, NetLabel.advances,
            hcode]⟩
        · exact ⟨.inl rfl, by simp [OwnerPc.shutdownRank, NetLabel.advances, hcode]⟩
      | windows =>
        cases h
        exact ⟨.inr rfl, by simp [OwnerPc.nothing, OwnerPc.shutdownRank, NetLabel.advances, hcode]⟩
    · cases h
      refine ⟨.inr rfl, ?_⟩
      simp only [OwnerPc.shutdownRank]
      split <;> omega
  | ready revents =>
    dsimp only [waitOwner] at h
    split at h
    · cases h
      exact ⟨.inl rfl, by simp [OwnerPc.shutdownRank, NetLabel.advances]⟩
    · cases h

/-- Each step of the `receive` brings it closer to its end. -/
theorem receiveOwner_shutdownRank {answer : Answer} {pc' : OwnerPc}
    (hshutdown : s.transport.shutdownRequested = true)
    (hstep : receiveOwner P os T answer s s.owner = some (pc', s')) :
    s'.transport = s.transport ∧ (pc'.part = .receive ∨ pc'.idle = true) ∧
      pc'.shutdownRank + (if NetLabel.advances os (.owner answer) then 1 else 0)
        ≤ s.owner.shutdownRank := by
  -- a step that counts, to a place of smaller rank
  have hless : ∀ {n : Nat}, pc'.shutdownRank < n →
      pc'.shutdownRank + (if NetLabel.advances os (.owner answer) then 1 else 0) ≤ n := by
    intro n hn
    split <;> omega
  cases howner : s.owner with
  | receive capacity timeout =>
    rw [howner] at hstep
    dsimp only [receiveOwner] at hstep
    split at hstep
    · cases hstep
      exact ⟨rfl, .inr rfl, hless (by simp [OwnerPc.shutdownRank])⟩
    · rw [if_pos hshutdown] at hstep
      cases hstep
      exact ⟨rfl, .inr rfl, hless (by simp [OwnerPc.nothing, OwnerPc.shutdownRank])⟩
  | head r =>
    rw [howner] at hstep
    simp only [receiveOwner, hshutdown, if_true] at hstep
    cases hstep
    exact ⟨rfl, .inr rfl, hless (by simp [OwnerPc.nothing, OwnerPc.shutdownRank])⟩
  | wait r ticks since =>
    rw [howner] at hstep
    dsimp only [receiveOwner] at hstep
    split at hstep
    · obtain ⟨pc, hwait, heq⟩ := Option.map_eq_some_iff.mp hstep
      cases heq
      obtain ⟨hplace, hrank⟩ := waitOwner_shutdownRank hwait
      exact ⟨rfl, hplace, hrank⟩
    · cases hstep
  | expired r =>
    rw [howner] at hstep
    obtain ⟨rfl, rfl⟩ := Prod.mk.inj (Option.some.inj hstep)
    split
    · exact ⟨rfl, .inr rfl, by split <;> simp [OwnerPc.nothing, OwnerPc.shutdownRank]⟩
    · exact ⟨rfl, .inl rfl, by split <;> simp [OwnerPc.shutdownRank]⟩
  | ready r revents =>
    rw [howner] at hstep
    simp only [receiveOwner, hshutdown, if_true] at hstep
    cases hstep
    exact ⟨rfl, .inr rfl, hless (by simp [OwnerPc.nothing, OwnerPc.shutdownRank])⟩
  | waitFailed r revents =>
    rw [howner] at hstep
    dsimp only [receiveOwner] at hstep
    split at hstep
    · cases hstep
      refine ⟨?_, .inr rfl, hless (by simp [OwnerPc.shutdownRank])⟩
      split <;> rfl
    · cases hstep
  | recv r =>
    rw [howner] at hstep
    dsimp only [receiveOwner] at hstep
    split at hstep
    · cases hstep
      exact ⟨rfl, .inr rfl, hless (by simp [OwnerPc.shutdownRank])⟩
    · cases hstep
      cases os with
      | posix =>
        dsimp only at hless ⊢
        split
        · exact ⟨rfl, .inr rfl, by simp [OwnerPc.nothing, OwnerPc.shutdownRank, NetLabel.advances]⟩
        · exact ⟨rfl, .inr rfl, by simp [OwnerPc.shutdownRank, NetLabel.advances]⟩
      | windows => exact ⟨rfl, .inl rfl, by simp [OwnerPc.shutdownRank, NetLabel.advances]⟩
    · cases hstep
  | recvFailed code =>
    rw [howner] at hstep
    simp only [receiveOwner, hshutdown, if_true] at hstep
    cases hstep
    exact ⟨rfl, .inr rfl, hless (by simp [OwnerPc.nothing, OwnerPc.shutdownRank])⟩
  | _ =>
    rw [howner] at hstep
    cases hstep

theorem Net.ShuttingDown.step (h : s.ShuttingDown) {l : NetLabel} (hl : ∀ op, l ≠ .begin op)
    (hstep : s.step P os T l = some s') :
    s'.ShuttingDown ∧
      s'.owner.shutdownRank + (if l.advances os then 1 else 0) ≤ s.owner.shutdownRank := by
  obtain ⟨hshutdown, hplace⟩ := h
  cases l with
  | begin op => exact absurd rfl (hl op)
  | tick ticks =>
    cases hstep
    exact ⟨⟨hshutdown, hplace⟩, by simp [NetLabel.advances]⟩
  | owner answer =>
    obtain ⟨⟨pc', u⟩, howner, rfl⟩ := Option.map_eq_some_iff.mp hstep
    unfold ownerStep at howner
    rcases hplace with hpart | hidle
    · rw [hpart] at howner
      obtain ⟨htransport, hplace', hrank⟩ := receiveOwner_shutdownRank hshutdown howner
      refine ⟨⟨?_, hplace'⟩, hrank⟩
      show u.transport.shutdownRequested = true
      rw [htransport]
      exact hshutdown
    · cases hpc : s.owner <;> rw [hpc] at hidle howner <;>
        first | (cases hidle; done) | cases howner
  | send command answer =>
    simp only [Net.step] at hstep
    split at hstep
    · cases hstep
    · cases hstep
      split <;> exact ⟨⟨hshutdown, hplace⟩, by simp [NetLabel.advances, Net.use]⟩
  | shutdown =>
    simp only [Net.step] at hstep
    split at hstep
    · cases hstep
    · cases hstep
      split <;> exact ⟨⟨rfl, hplace⟩, by simp [NetLabel.advances, Net.use]⟩
  | otherOpens n =>
    simp only [Net.step] at hstep
    split at hstep
    · cases hstep
    · cases hstep
      exact ⟨⟨hshutdown, hplace⟩, by simp [NetLabel.advances]⟩
  | otherCloses n =>
    simp only [Net.step] at hstep
    split at hstep
    · cases hstep
      exact ⟨⟨hshutdown, hplace⟩, by simp [NetLabel.advances]⟩
    · cases hstep

end Shutdown

/-- A `receive` that a shutdown finds under way takes at most three more
steps, waits that a signal ends aside. On Windows, where the system does
not end the wait, the slice it waits for is over after 50 milliseconds. -/
theorem shutdown_noticed (P : Platform) (os : Os) (T : ErrorTexts) {s t : Net} {ls : List NetLabel}
    (h : (netLts P os T).Reachable s) (hreceive : s.owner.part = .receive)
    (hshutdown : s.transport.shutdownRequested = true)
    (hp : (netLts P os T).Path (fun _ l => ∀ op, l ≠ .begin op) s ls t) :
    t.transport.shutdownRequested = true ∧ ls.countP (NetLabel.advances os) ≤ 3 ∧
    ∀ r ticks since, os = .windows → t.owner = .wait r ticks since →
      since + 50000000 ≤ t.clock → (t.step P os T (.owner (.poll .expired))).isSome = true := by
  obtain ⟨hfinal, hrank⟩ := hp.ranked (I := Net.ShuttingDown) (K := fun _ => True)
    (fun v => v.owner.shutdownRank) (NetLabel.advances os) (fun _ _ => trivial)
    (fun _ _ _ hok hstep _ hI => hI.step hok hstep) h ⟨hshutdown, .inl hreceive⟩
  have hle : ∀ pc : OwnerPc, pc.shutdownRank ≤ 3 := by
    intro pc
    cases pc <;> simp [OwnerPc.shutdownRank]
  refine ⟨hfinal.1, by have := hle s.owner; omega, ?_⟩
  rintro r ticks since rfl howner hclock
  have hslice : since + Os.windows.pollMilliseconds ticks * 1000000 ≤ t.clock := by
    have : Os.windows.pollMilliseconds ticks ≤ 50 := Nat.min_le_left _ _
    exact le_trans (Nat.add_le_add_left (by omega) since) hclock
  simp [Net.step, ownerStep, howner, OwnerPc.part, receiveOwner, waitOwner, hslice]

/-- A shutdown during the first slice of a wait on Windows. -/
theorem shutdown_noticed_waiting :
    ∃ s, (netLts exactPlatform .windows plainTexts).Reachable s ∧ s.owner.part = .receive ∧
      s.transport.shutdownRequested = true ∧
      ∀ ls t, (netLts exactPlatform .windows plainTexts).Path
        (fun _ l => ∀ op, l ≠ .begin op) s ls t →
        ls.countP (NetLabel.advances .windows) ≤ 3 := by
  obtain ⟨s, hs, hp⟩ := Lts.exists_of_exec (l := secondAddress ++ [.owner .go, .shutdown])
    (p := fun s : Net => decide (s.owner = .wait ⟨4, 65536, 100000000⟩ 50000000 0 ∧
      s.transport.shutdownRequested = true))
    (netLts_init exactPlatform .windows plainTexts) (by decide +kernel)
  obtain ⟨howner, hshutdown⟩ := of_decide_eq_true hp
  have hpart : s.owner.part = .receive := by rw [howner]; rfl
  exact ⟨s, hs, hpart, hshutdown, fun ls t hpath =>
    (shutdown_noticed exactPlatform .windows plainTexts hs hpart hshutdown hpath).2.1⟩

/-! ## The transport of the receive thread -/

/-- The place of the receive thread that stands for a place of `receive`. -/
def OwnerPc.workerPc (rx : Reception) : OwnerPc → Option WorkerPc
  | .receive _ timeout => some (.receiveEnter rx timeout)
  | .wait r ticks since => some (.receivePoll rx ⟨r.deadline, ticks, since⟩)
  | .ready _ revents => some (.receiveReady rx revents.nval)
  | .recv _ => some (.receiveRecv rx)
  | .returned (.datagram bytes) => some (.received rx bytes)
  | .returned (.threw message) => some (.receiveFailed rx message)
  | _ => none

/-- How a send on POSIX ends, as the receive thread sees it. -/
def posixSend (T : ErrorTexts) : Except Int Nat → SendEvent
  | .error code => .failed (T.strerror code)
  | .ok sent => if sent = 8 then .sent else .short

/-- What is left of `close_session` behind its `StopStreaming`. -/
def Shared.closeTransport (c : Shared) : Shared :=
  { c with
    transport := ⟨none, true⟩
    log := c.log ++ c.transport.socket.toList.map .closed }

/-- What is left of the section of `stop` behind its `StopStreaming`. -/
def Shared.shutdownTransport (c : Shared) : Shared :=
  { c with transport := { c.transport with shutdownRequested := true } }

/-- The members agree; the receive thread numbers its sockets, here they
are descriptors. The session is the client's business. -/
structure Net.Matches (s : Net) (c : Shared) : Prop where
  clock : c.clock = s.clock
  shutdown : c.transport.shutdownRequested = s.transport.shutdownRequested
  socket : c.transport.socket.isSome = s.transport.socket.isSome

/-- The buffer of `receive_session`. -/
def OwnerPc.buffered : OwnerPc → Bool
  | .receive capacity _ => decide (capacity = 65536)
  | pc => pc.receiving?.all fun r => decide (r.capacity = 65536)

/-- `receive` is called with that buffer. -/
def NetLabel.sessionBuffer : NetLabel → Bool
  | .begin (.receive capacity _) => decide (capacity = 65536)
  | _ => true

def Net.SessionBuffer (_ : Net) (l : NetLabel) : Prop := l.sessionBuffer = true

/-- What a step is for the client. -/
inductive TransportMove (P : Platform) (T : ErrorTexts) (s s' : Net) (c : Shared) :
    NetLabel → Shared → Prop where
  | tick (ticks : Nat) : TransportMove P T s s' c (.tick ticks) { c with clock := c.clock + ticks }
  | begun (op : OwnerOp) : TransportMove P T s s' c (.begin op) c
  /-- A step of `receive`. -/
  | receive (answer : Answer) (choice : WorkerChoice)
      (step : ∀ rx, ∃ pc pc', s.owner.workerPc rx = some pc ∧ s'.owner.workerPc rx = some pc' ∧
        transportStep P choice c pc = some (pc', c)) :
      TransportMove P T s s' c (.owner answer) c
  /-- A step within `connect`, which is one step for the receive thread. -/
  | trying (answer : Answer) (before : s.owner.part = .connect)
      (after : s'.owner.part = .connect) : TransportMove P T s s' c (.owner answer) c
  /-- The end of `connect`, with the text it throws or a socket. -/
  | connects (answer : Answer) (before : s.owner.part = .connect) (failure : Option String)
      (after : s'.owner = .returned (failure.elim .done .threw)) {pc : WorkerPc} {c' : Shared}
      (step : connectStep (.connect failure) c .connect = some (pc, c')) :
      TransportMove P T s s' c (.owner answer) c'
  | closed (answer : Answer) (before : s.owner = .close ∨ s.owner = .destroy) :
      TransportMove P T s s' c (.owner answer) c.closeTransport
  /-- A command, with the result its sender gets. -/
  | sent (command : Command) (answer : Except Int Nat)
      (result : sendResult .posix T s.transport answer
        = c.transport.send (posixSend T answer)) :
      TransportMove P T s s' c (.send command answer) (c.attempt command (posixSend T answer))
  | shutdown : TransportMove P T s s' c .shutdown c.shutdownTransport
  | opens (n : Nat) : TransportMove P T s s' c (.otherOpens n) c
  | closes (n : Nat) : TransportMove P T s s' c (.otherCloses n) c

section Refinement

variable {P : Platform} {T : ErrorTexts} {s s' : Net} {c : Shared}

theorem sendResult_posix (hmatch : s.Matches c) (answer : Except Int Nat) :
    sendResult .posix T s.transport answer = c.transport.send (posixSend T answer) := by
  have hsocket := hmatch.socket
  cases hs : s.transport.socket with
  | none =>
    have hc : c.transport.socket = none := by simpa [hs] using hsocket
    simp [sendResult, UdpTransport.send, hs, hc]
  | some n =>
    obtain ⟨m, hc⟩ := Option.isSome_iff_exists.mp (hsocket.trans (by simp [hs]))
    cases answer with
    | error code =>
      simp only [sendResult, UdpTransport.send, hs, hc, posixSend]
      rfl
    | ok sent =>
      simp only [sendResult, UdpTransport.send, hs, hc, posixSend]
      split <;> rfl

/-- The wait of `receive`. -/
theorem waitOwner_posix (hmatch : s.Matches c) {answer : PollAnswer} {r : Receiving} {ticks : Nat}
    {since : TimePoint} {pc' : OwnerPc}
    (h : waitOwner .posix T answer s r ticks since = some pc') :
    ∃ choice, ∀ rx, ∃ w, pc'.workerPc rx = some w ∧
      transportStep P choice c (.receivePoll rx ⟨r.deadline, ticks, since⟩) = some (w, c) := by
  cases answer with
  | expired =>
    dsimp only [waitOwner] at h
    split at h
    · rename_i hover
      cases h
      refine ⟨.poll .expired, fun rx => ⟨_, rfl, ?_⟩⟩
      simp only [transportStep, hmatch.clock]
      rw [if_pos (show since + pollMilliseconds ticks * 1000000 ≤ s.clock from hover)]
    · cases h
  | failed code =>
    dsimp only [waitOwner] at h
    split at h
    · obtain rfl := Option.some.inj h
      refine ⟨.poll .interrupted, fun rx => ?_⟩
      simp only [transportStep, hmatch.clock]
      split
      · exact ⟨_, rfl, rfl⟩
      · exact ⟨_, rfl, rfl⟩
    · cases h
      exact ⟨.poll (.failed (T.strerror code)), fun rx => ⟨_, rfl, rfl⟩⟩
  | ready revents =>
    dsimp only [waitOwner] at h
    split at h
    · cases h
      exact ⟨.poll (.ready revents.nval), fun rx => ⟨_, rfl, rfl⟩⟩
    · cases h

/-- A step of `receive` on POSIX. -/
theorem receiveOwner_posix (hwf : s.Wf) (hmatch : s.Matches c) {answer : Answer} {pc' : OwnerPc}
    (hpart : s.owner.part = .receive) (hposix : ∀ rx, (s.owner.workerPc rx).isSome = true)
    (hbuffer : s.owner.buffered = true)
    (hstep : receiveOwner P .posix T answer s s.owner = some (pc', s')) :
    s'.clock = s.clock ∧ s'.transport = s.transport ∧ (∀ rx, (pc'.workerPc rx).isSome = true) ∧
      pc'.buffered = true ∧
      ∃ choice, ∀ rx, ∃ pc w, s.owner.workerPc rx = some pc ∧ pc'.workerPc rx = some w ∧
        transportStep P choice c pc = some (w, c) := by
  have hkept := (receiveOwner_move hwf hpart hstep).1
  refine ⟨hkept.clock, hkept.transport, ?_⟩
  have hsocket := hmatch.socket
  cases howner : s.owner with
  | receive capacity timeout =>
    rw [howner] at hstep hbuffer
    dsimp only [receiveOwner] at hstep
    split at hstep
    · rename_i hnone
      have hc : c.transport.socket = none := by simpa [hnone] using hsocket
      cases hstep
      refine ⟨fun _ => rfl, rfl, .go, fun rx => ⟨_, _, rfl, rfl, ?_⟩⟩
      simp only [transportStep]
      rw [if_pos hc]
    · rename_i n hn
      have hc : c.transport.socket ≠ none := by
        intro hnone
        simp [hn, hnone] at hsocket
      split at hstep
      · rename_i hshutdown
        cases hstep
        refine ⟨fun _ => rfl, rfl, .go, fun rx => ⟨_, _, rfl, rfl, ?_⟩⟩
        simp only [transportStep]
        rw [if_neg hc, hmatch.shutdown, if_pos hshutdown]
      · rename_i hshutdown
        split at hstep
        · rename_i message hdeadline
          cases hstep
          refine ⟨fun _ => rfl, rfl, .go, fun rx => ⟨_, _, rfl, rfl, ?_⟩⟩
          simp only [transportStep]
          rw [if_neg hc, hmatch.shutdown, if_neg hshutdown, hmatch.clock, hdeadline]
        · rename_i deadline hdeadline
          cases hstep
          refine ⟨fun _ => rfl, hbuffer, .go, fun rx => ⟨_, _, rfl, rfl, ?_⟩⟩
          simp only [transportStep]
          rw [if_neg hc, hmatch.shutdown, if_neg hshutdown, hmatch.clock, hdeadline]
  | wait r ticks since =>
    rw [howner] at hstep hbuffer
    dsimp only [receiveOwner] at hstep
    split at hstep
    · obtain ⟨pc, hwait, heq⟩ := Option.map_eq_some_iff.mp hstep
      cases heq
      obtain ⟨choice, hchoice⟩ := waitOwner_posix hmatch hwait
      refine ⟨fun rx => ?_, ?_, choice, fun rx => ?_⟩
      · obtain ⟨w, hw, -⟩ := hchoice rx
        rw [hw]
        rfl
      · rename_i poll
        cases poll <;> dsimp only [waitOwner] at hwait <;> split at hwait <;> cases hwait
        · rfl
        · split
          · rfl
          · exact hbuffer
        · rfl
        · exact hbuffer
      · obtain ⟨w, hw, hmove⟩ := hchoice rx
        exact ⟨_, w, rfl, hw, hmove⟩
    · cases hstep
  | ready r revents =>
    rw [howner] at hstep hbuffer
    obtain ⟨rfl, rfl⟩ := Prod.mk.inj (Option.some.inj hstep)
    have htransport : ∀ rx, transportStep P .go c (.receiveReady rx revents.nval)
        = if s.transport.shutdownRequested then some (.received rx [], c)
          else if revents.nval then some (.receiveFailed rx "UDP socket became invalid", c)
          else some (.receiveRecv rx, c) := by
      intro rx
      simp only [transportStep, hmatch.shutdown]
    by_cases hshutdown : s.transport.shutdownRequested = true
    · rw [if_pos hshutdown]
      refine ⟨fun _ => rfl, rfl, .go, fun rx => ⟨_, _, rfl, rfl, ?_⟩⟩
      rw [htransport rx, if_pos hshutdown]
    · rw [if_neg hshutdown]
      by_cases hnval : revents.nval = true
      · rw [if_pos hnval]
        refine ⟨fun _ => rfl, rfl, .go, fun rx => ⟨_, _, rfl, rfl, ?_⟩⟩
        rw [htransport rx, if_neg hshutdown, if_pos hnval]
      · rw [if_neg hnval]
        refine ⟨fun _ => rfl, hbuffer, .go, fun rx => ⟨_, _, rfl, rfl, ?_⟩⟩
        rw [htransport rx, if_neg hshutdown, if_neg hnval]
  | recv r =>
    rw [howner] at hstep hbuffer
    have hcapacity : r.capacity = 65536 := by
      simpa [OwnerPc.buffered, OwnerPc.receiving?] using hbuffer
    dsimp only [receiveOwner] at hstep
    split at hstep
    · rename_i bytes
      cases hstep
      refine ⟨fun _ => rfl, rfl, .recv (.datagram bytes), fun rx => ⟨_, _, rfl, rfl, ?_⟩⟩
      simp only [transportStep, Os.receivable, hcapacity]
    · rename_i code
      cases hstep
      split
      · exact ⟨fun _ => rfl, rfl, .recv .interrupted, fun rx => ⟨_, _, rfl, rfl, rfl⟩⟩
      · exact ⟨fun _ => rfl, rfl, .recv (.failed (T.strerror code)),
          fun rx => ⟨_, _, rfl, rfl, rfl⟩⟩
    · cases hstep
  | head r =>
    have := hposix ⟨0, false⟩
    rw [howner] at this
    cases this
  | expired r =>
    have := hposix ⟨0, false⟩
    rw [howner] at this
    cases this
  | waitFailed r revents =>
    have := hposix ⟨0, false⟩
    rw [howner] at this
    cases this
  | recvFailed code =>
    have := hposix ⟨0, false⟩
    rw [howner] at this
    cases this
  | _ =>
    rw [howner] at hpart
    cases hpart

/-- On POSIX the places of the Windows loop are not reached. -/
structure Net.OnPosix (s : Net) : Prop where
  places : s.owner.part = .receive → ∀ rx, (s.owner.workerPc rx).isSome = true
  buffered : s.owner.buffered = true

theorem connectOwner_posix {answer : Answer} {pc' : OwnerPc} (hpart : s.owner.part = .connect)
    (hstep : connectOwner .posix T answer s s.owner = some (pc', s')) :
    s'.clock = s.clock ∧ pc'.part ≠ .receive ∧ pc'.buffered = true ∧
      (s'.transport = s.transport ∧
          (pc'.part = .connect ∨ ∃ message, pc' = .returned (.threw message)) ∨
        pc' = .returned .done ∧ s'.transport.socket.isSome = true ∧
          s'.transport.shutdownRequested = false) := by
  have hthrew : ∀ message, (OwnerPc.returned (.threw message)).part ≠ .receive := by
    intro message
    simp [OwnerPc.part]
  cases howner : s.owner with
  | resolve host service =>
    rw [howner] at hstep
    dsimp only [Core.connectOwner] at hstep
    split at hstep <;> cases hstep
    · exact ⟨rfl, hthrew _, rfl, .inl ⟨rfl, .inr ⟨_, rfl⟩⟩⟩
    · exact ⟨rfl, by simp [OwnerPc.part], rfl, .inl ⟨rfl, .inl rfl⟩⟩
  | socket addresses lastError =>
    rw [howner] at hstep
    cases addresses with
    | nil =>
      cases hstep
      exact ⟨rfl, hthrew _, rfl, .inl ⟨rfl, .inr ⟨_, rfl⟩⟩⟩
    | cons address rest =>
      dsimp only [Core.connectOwner] at hstep
      split at hstep
      · cases hstep
        exact ⟨rfl, by simp [OwnerPc.part], rfl, .inl ⟨rfl, .inl rfl⟩⟩
      · split at hstep <;> cases hstep
        exact ⟨rfl, by simp [OwnerPc.part], rfl, .inl ⟨rfl, .inl rfl⟩⟩
      · cases hstep
  | connect n address rest =>
    rw [howner] at hstep
    dsimp only [Core.connectOwner] at hstep
    split at hstep <;> cases hstep
    · exact ⟨rfl, by simp [OwnerPc.part], rfl, .inl ⟨rfl, .inl rfl⟩⟩
    · exact ⟨rfl, by simp [OwnerPc.part], rfl, .inl ⟨rfl, .inl rfl⟩⟩
  | discard n rest lastError =>
    rw [howner] at hstep
    cases hstep
    exact ⟨rfl, by simp [OwnerPc.part], rfl, .inl ⟨rfl, .inl rfl⟩⟩
  | adopt n =>
    rw [howner] at hstep
    cases hstep
    unfold Net.adopt
    split <;> exact ⟨rfl, by simp [OwnerPc.part], rfl, .inr ⟨rfl, rfl, rfl⟩⟩
  | _ =>
    rw [howner] at hpart
    cases hpart

theorem closeSocket_members (s : Net) :
    s.closeSocket.clock = s.clock ∧ s.closeSocket.transport = ⟨none, true⟩ := by
  unfold Net.closeSocket
  split <;> exact ⟨rfl, rfl⟩

/-- One step of the transport, matched. -/
theorem Net.Matches.step (hwf : s.Wf) (hposix : s.OnPosix) (hmatch : s.Matches c) {l : NetLabel}
    (hl : s.SessionBuffer l) (hstep : s.step P .posix T l = some s') :
    s'.OnPosix ∧ ∃ c', TransportMove P T s s' c l c' ∧ s'.Matches c' := by
  cases l with
  | tick ticks =>
    cases hstep
    exact ⟨⟨hposix.places, hposix.buffered⟩, _, .tick ticks,
      congrArg (· + ticks) hmatch.clock, hmatch.shutdown, hmatch.socket⟩
  | begin op =>
    simp only [Net.step] at hstep
    split at hstep
    · cases hstep
      refine ⟨⟨?_, ?_⟩, c, .begun op, hmatch.clock, hmatch.shutdown, hmatch.socket⟩
      · intro hpart rx
        cases op <;> first | rfl | cases hpart
      · cases op with
        | receive capacity timeout => exact hl
        | _ => rfl
    · cases hstep
  | owner answer =>
    obtain ⟨⟨pc', u⟩, howner, rfl⟩ := Option.map_eq_some_iff.mp hstep
    unfold Core.ownerStep at howner
    split at howner
    · rename_i hpart
      obtain ⟨hclock, hout, hbuffered, hcases⟩ := connectOwner_posix hpart howner
      refine ⟨⟨fun hin => absurd hin hout, hbuffered⟩, ?_⟩
      rcases hcases with ⟨htransport, hafter⟩ | ⟨hafter, hsocket, hshutdown⟩
      · have hmatch' : Net.Matches { u with owner := pc' } c :=
          ⟨hmatch.clock.trans hclock.symm,
            hmatch.shutdown.trans (congrArg UdpTransport.shutdownRequested htransport).symm,
            hmatch.socket.trans (congrArg (fun t => t.socket.isSome) htransport).symm⟩
        rcases hafter with hafter | ⟨message, hafter⟩
        · exact ⟨c, .trying answer hpart hafter, hmatch'⟩
        · exact ⟨c, .connects answer hpart (some message) hafter rfl, hmatch'⟩
      · exact ⟨c.connected, .connects answer hpart none hafter rfl,
          hmatch.clock.trans hclock.symm, hshutdown.symm, hsocket.symm⟩
    · rename_i hpart
      obtain ⟨hclock, htransport, hplaces, hbuffered, choice, hchoice⟩ :=
        receiveOwner_posix hwf hmatch hpart (hposix.places hpart) hposix.buffered howner
      refine ⟨⟨fun _ => hplaces, hbuffered⟩, c, .receive answer choice ?_,
        hmatch.clock.trans hclock.symm, ?_, ?_⟩
      · intro rx
        obtain ⟨pc, w, hpc, hw, hmove⟩ := hchoice rx
        exact ⟨pc, w, hpc, hw, hmove⟩
      · exact hmatch.shutdown.trans (congrArg UdpTransport.shutdownRequested htransport).symm
      · exact hmatch.socket.trans (congrArg (fun t => t.socket.isSome) htransport).symm
    · obtain ⟨hclock, htransport⟩ := closeSocket_members s
      have hclosed : ∀ destroyed, ({ s.closeSocket with
          owner := .returned .done, destroyed := destroyed } : Net).Matches c.closeTransport :=
        fun _ => ⟨hmatch.clock.trans hclock.symm,
          (congrArg UdpTransport.shutdownRequested htransport).symm,
          (congrArg (fun t => t.socket.isSome) htransport).symm⟩
      cases hpc : s.owner with
      | close =>
        rw [hpc] at howner
        cases howner
        exact ⟨⟨fun hin => (by cases hin), rfl⟩, _, .closed answer (.inl hpc), hclosed _⟩
      | destroy =>
        rw [hpc] at howner
        cases howner
        exact ⟨⟨fun hin => (by cases hin), rfl⟩, _, .closed answer (.inr hpc), hclosed true⟩
      | _ =>
        rw [hpc] at howner
        cases howner
  | send command answer =>
    simp only [Net.step] at hstep
    split at hstep
    · cases hstep
    · cases hstep
      have hresult : sendResult .posix T s.transport answer
          = c.transport.send (posixSend T answer) := sendResult_posix hmatch answer
      split
      · exact ⟨⟨hposix.places, hposix.buffered⟩, _, .sent command answer hresult, hmatch.clock,
          hmatch.shutdown, hmatch.socket⟩
      · exact ⟨⟨hposix.places, hposix.buffered⟩, _, .sent command answer hresult, hmatch.clock,
          hmatch.shutdown, hmatch.socket⟩
  | shutdown =>
    simp only [Net.step] at hstep
    split at hstep
    · cases hstep
    · cases hstep
      refine ⟨?_, _, .shutdown, ?_⟩
      · split <;> exact ⟨hposix.places, hposix.buffered⟩
      · split <;> exact ⟨hmatch.clock, rfl, hmatch.socket⟩
  | otherOpens n =>
    simp only [Net.step] at hstep
    split at hstep
    · cases hstep
    · cases hstep
      exact ⟨⟨hposix.places, hposix.buffered⟩, c, .opens n, hmatch.clock, hmatch.shutdown,
        hmatch.socket⟩
  | otherCloses n =>
    simp only [Net.step] at hstep
    split at hstep
    · cases hstep
      exact ⟨⟨hposix.places, hposix.buffered⟩, c, .closes n, hmatch.clock, hmatch.shutdown,
        hmatch.socket⟩
    · cases hstep

theorem onPosix_of_reach (h : (netLts P .posix T).Reach Net.SessionBuffer s) : s.OnPosix := by
  refine h.invariant_using (K := Net.Wf) (fun s hs => netWf_of_reachable hs.reachable) ?_ ?_
  · rintro s ⟨table, clock, -, rfl⟩
    exact ⟨fun hin => (by cases hin), rfl⟩
  · intro s l t hl hstep hwf _ hs
    -- any matching members will do
    let c : Shared := { Impl.new {} with
      transport := ⟨s.transport.socket, s.transport.shutdownRequested⟩, clock := s.clock }
    have hmatch : s.Matches c := ⟨rfl, rfl, rfl⟩
    exact (Net.Matches.step hwf hs hmatch hl hstep).1

end Refinement

/-- On POSIX the transport refines the one `Core.Worker` gives to the
receive thread: a new transport matches a new client, and from matching
states each step of the transport, whoever takes it, is the step of the
client's model that stands for it, with the same outcome. A session that is on
sends its last command before: what closes and shuts down the transport
is the rest of `close_session` and of `stop`. -/
theorem transport_refines (P : Platform) (T : ErrorTexts) :
    (∀ s config, (netLts P .posix T).init s →
      s.Matches { Impl.new config with clock := s.clock }) ∧
    (∀ s c l s', (netLts P .posix T).Reach Net.SessionBuffer s → s.SessionBuffer l → s.Matches c →
      s.step P .posix T l = some s' → ∃ c', TransportMove P T s s' c l c' ∧ s'.Matches c') ∧
    ∀ (c : Shared) event, c.closeSession event = (c.stopStreaming event).closeTransport ∧
      c.stopCommand event = (c.stopStreaming event).shutdownTransport := by
  refine ⟨?_, ?_, fun _ _ => ⟨rfl, rfl⟩⟩
  · rintro s config ⟨table, clock, -, rfl⟩
    exact ⟨rfl, rfl, rfl⟩
  · intro s c l s' hs hl hmatch hstep
    exact (hmatch.step (netWf_of_reachable hs.reachable) (onPosix_of_reach hs) hl hstep).2

/-- The end of that wait, in both. -/
theorem transport_refines_waiting :
    ∃ s s' c c', (netLts exactPlatform .posix plainTexts).Reach Net.SessionBuffer s ∧
      s.owner = .wait ⟨4, 65536, 100000000⟩ 100000000 0 ∧
      s.step exactPlatform .posix plainTexts (.owner (.poll (.ready ⟨false, false, false⟩)))
        = some s' ∧
      TransportMove exactPlatform plainTexts s s' c
        (.owner (.poll (.ready ⟨false, false, false⟩))) c' ∧
      s'.Matches c' := by
  have hinit : (netLts exactPlatform .posix plainTexts).Reach Net.SessionBuffer {} :=
    .init ⟨fun _ => none, 0, fun _ => (by simp), rfl⟩
  obtain ⟨s, hs, hp⟩ := Lts.exists_of_execChecked (l := secondAddress)
    (p := fun s : Net => decide (s.owner = .wait ⟨4, 65536, 100000000⟩ 100000000 0 ∧
      s.table 4 = some .transport))
    (fun _ l => l.sessionBuffer) (fun _ _ hl => hl) hinit (by decide +kernel)
  obtain ⟨howner, htable⟩ := of_decide_eq_true hp
  let c : Shared := { Impl.new {} with
    transport := ⟨s.transport.socket, s.transport.shutdownRequested⟩, clock := s.clock }
  have hstep : ∃ s', s.step exactPlatform .posix plainTexts
      (.owner (.poll (.ready ⟨false, false, false⟩))) = some s' := by
    simp [Net.step, ownerStep, howner, OwnerPc.part, receiveOwner, waitOwner, htable]
  obtain ⟨s', hs'⟩ := hstep
  obtain ⟨c', hmove, hmatch⟩ :=
    (transport_refines exactPlatform plainTexts).2.1 s c
      (.owner (.poll (.ready ⟨false, false, false⟩))) s' hs rfl
      ⟨rfl, rfl, rfl⟩ hs'
  exact ⟨s, s', c, c', hs, howner, hs', hmove, hmatch⟩

end PyNetFT.Core
