/-
PyNetFT.Core.Validated — the calibration in use has passed `validate`.

A configuration gets into `health_` through `apply_configuration` only,
which takes it from the constructor's override or from the parser; both
have validated it. So a thread that handles a record finds a
configuration, and scaling the record with it stays in the finite range
(`Sys.ValidWf.classifies`).
-/
import PyNetFT.Core.Counters
import PyNetFT.Core.Recovery
import PyNetFT.Core.XmlSafety

namespace PyNetFT.Core

open PyNetFT.Lib

/-- The calibration of a configuration is one `validate` accepts. -/
def SensorConfiguration.Valid (configuration : SensorConfiguration) : Prop :=
  validateCalibration configuration.calibration = .ok ()

/-- The override of a validated configuration is validated. -/
theorem validateConfig_override {now : TimePoint} {config : Config}
    (h : validateConfig now config = .ok ()) {calibration : Calibration}
    (hoverride : config.calibrationOverride = some calibration) :
    validateCalibration calibration = .ok () := by
  unfold validateConfig at h
  dsimp only at h
  split at h
  · cases h
  obtain ⟨_, -, h⟩ := bind_ok h
  obtain ⟨_, -, h⟩ := bind_ok h
  obtain ⟨_, -, h⟩ := bind_ok h
  obtain ⟨_, -, h⟩ := bind_ok h
  obtain ⟨_, -, h⟩ := bind_ok h
  obtain ⟨_, -, h⟩ := bind_ok h
  obtain ⟨_, -, h⟩ := bind_ok h
  split at h
  · cases h
  split at h
  · cases h
  rw [hoverride] at h
  exact h

/-- What a session is configured with. -/
theorem configurationForSession_valid {P : Platform} {config : Config} {transfer : Transfer}
    {configuration : SensorConfiguration}
    (hoverride : ∀ calibration, config.calibrationOverride = some calibration →
      validateCalibration calibration = .ok ())
    (h : configurationForSession P config transfer = .ok configuration) : configuration.Valid := by
  unfold configurationForSession at h
  split at h
  · rename_i calibration hsome
    cases h
    exact hoverride calibration hsome
  · unfold discoverSensor at h
    obtain ⟨_, -, h⟩ := bind_ok h
    split at h
    · cases h
    · dsimp only at h
      split at h
      · cases h
      split at h
      · cases h
      exact parseSensorConfiguration_validated h

/-! ## Runs -/

/-- Every configuration in sight is validated: the one in use, the one a
thread is about to apply, and the one a `start` would go back to. -/
structure Sys.ValidWf (config : Config) (s : Sys) : Prop where
  override : ∀ calibration, config.calibrationOverride = some calibration →
    validateCalibration calibration = .ok ()
  shared : ∀ configuration, s.shared.health.sensorConfiguration = some configuration →
    configuration.Valid
  thread : ∀ w t configuration, s.workers w = some t → t.pc = .applyConfiguration configuration →
    configuration.Valid
  configured : ∀ w t, s.workers w = some t → t.pc.configured = true →
    s.shared.health.sensorConfiguration.isSome = true
  saved : ∀ c call d configuration, s.calls c = some call → call.pc.data? = some d →
    d.health.sensorConfiguration = some configuration → configuration.Valid

section System

variable {P : Platform} {config : Config} {s s' : Sys}

/-- Applying keeps the calibration. -/
theorem applyConfiguration_valid {impl : Impl} {configuration applied : SensorConfiguration}
    (hvalid : configuration.Valid)
    (h : (impl.applyConfiguration configuration).health.sensorConfiguration = some applied) :
    applied.Valid := by
  unfold Impl.applyConfiguration at h
  split at h
  · cases h
    exact hvalid
  · split at h <;> cases h <;> exact hvalid

theorem WorkerPc.writes_valid {pc : WorkerPc} {u : Shared}
    (hpc : ∀ configuration, pc = .applyConfiguration configuration → configuration.Valid)
    (hu : ∀ configuration, u.health.sensorConfiguration = some configuration →
      configuration.Valid) {configuration : SensorConfiguration}
    (h : (pc.writes u).configuration = some configuration) : configuration.Valid := by
  cases pc
  case applyConfiguration applying => exact applyConfiguration_valid (hpc applying rfl) h
  all_goals exact hu configuration h

/-- The configuration a thread is about to apply. -/
def WorkerPc.applying? : WorkerPc → Option SensorConfiguration
  | .applyConfiguration configuration => some configuration
  | _ => none

theorem recordReturned_applying (rx : Reception) (outcome : Option SessionResult) :
    (recordReturned rx outcome).applying? = none := by
  cases outcome <;> rfl

theorem configureStep_applying {w : Nat} {choice : WorkerChoice} {u u' : Shared}
    {pc pc' : WorkerPc} (hpart : pc.part = .configure)
    (h : configureStep P config w choice u pc = some (pc', u'))
    {configuration : SensorConfiguration} (hpc : pc'.applying? = some configuration) :
    ∃ transfer, configurationForSession P config transfer = .ok configuration := by
  cases pc <;> cases hpart <;> dsimp only [configureStep] at h
  case configure =>
    split at h
    · rename_i transfer
      split at h <;> cases h <;> cases hpc
      exact ⟨transfer, by assumption⟩
    · cases h
  all_goals (repeat' split at h) <;> cases h <;> cases hpc

/-- A thread gets to `apply_configuration` with what a session was
configured with. -/
theorem workerStep_applying {w : Nat} {choice : WorkerChoice} {t t' : Worker} {u u' : Shared}
    (h : workerStep P config w choice t u = some (t', u')) {configuration : SensorConfiguration}
    (hpc : t'.pc.applying? = some configuration) :
    ∃ transfer, configurationForSession P config transfer = .ok configuration := by
  obtain ⟨pc, backoff, nested⟩ := t
  cases (workerStep_parts h).2 with
  | run hpart hr =>
    exfalso
    cases pc <;> cases hpart <;> dsimp only [runStep] at hr <;> (repeat' split at hr) <;>
      cases hr <;> cases hpc
  | connect hpart hr =>
    exfalso
    cases pc <;> cases hpart <;> dsimp only [connectStep] at hr <;> (repeat' split at hr) <;>
      cases hr <;> cases hpc
  | configure hpart hr =>
    exact configureStep_applying hpart hr hpc
  | transport hpart hr =>
    exfalso
    cases pc <;> cases hpart <;> dsimp only [transportStep] at hr <;> (repeat' split at hr) <;>
      cases hr <;> cases hpc
  | receive hpart hr =>
    exfalso
    cases pc <;> cases hpart <;> dsimp only [receiveStep] at hr <;> (repeat' split at hr) <;>
      cases hr <;> cases hpc
  | record hpart hr =>
    exfalso
    cases pc <;> cases hpart <;> dsimp only [recordStep] at hr <;> (repeat' split at hr) <;>
      cases hr
    all_goals first
      | cases hpc
      | (rw [recordReturned_applying] at hpc; cases hpc)

theorem configureStep_configured {w : Nat} {choice : WorkerChoice} {u u' : Shared}
    {pc pc' : WorkerPc} (hpart : pc.part = .configure)
    (h : configureStep P config w choice u pc = some (pc', u'))
    (hpc : pc'.configured = true) :
    pc.configured = true ∨ ∃ configuration, pc = .applyConfiguration configuration := by
  cases pc <;> cases hpart
  case applyConfiguration configuration => exact .inr ⟨configuration, rfl⟩
  case configuredCheck | resetTrackers | firstDeadline => exact .inl rfl
  all_goals
    dsimp only [configureStep] at h
    (repeat' split at h) <;> cases h <;> cases hpc

/-- `apply_configuration` is the only way into the rest of a session. -/
theorem workerStep_configured {w : Nat} {choice : WorkerChoice} {t t' : Worker} {u u' : Shared}
    (h : workerStep P config w choice t u = some (t', u')) (hpc : t'.pc.configured = true) :
    t.pc.configured = true ∨ ∃ configuration, t.pc = .applyConfiguration configuration := by
  obtain ⟨pc, backoff, nested⟩ := t
  cases (workerStep_parts h).2 with
  | run hpart hr =>
    exfalso
    cases pc <;> cases hpart <;> dsimp only [runStep] at hr <;> (repeat' split at hr) <;>
      cases hr <;> cases hpc
  | connect hpart hr =>
    exact .inl (by simp [WorkerPc.configured, hpart])
  | configure hpart hr =>
    exact configureStep_configured hpart hr hpc
  | transport hpart hr =>
    exact .inl (by simp [WorkerPc.configured, hpart])
  | receive hpart hr =>
    exact .inl (by simp [WorkerPc.configured, hpart])
  | record hpart hr =>
    exact .inl (by simp [WorkerPc.configured, hpart])

/-- A thread takes no configuration away. -/
theorem WorkerPc.writes_isSome {pc : WorkerPc} {u : Shared}
    (h : u.health.sensorConfiguration.isSome = true ∨
      ∃ configuration, pc = .applyConfiguration configuration) :
    (pc.writes u).configuration.isSome = true := by
  cases pc
  case applyConfiguration configuration =>
    exact (applyConfiguration_facts u.toImpl configuration).1
  all_goals
    rcases h with hsome | ⟨_, hpc⟩
    · exact hsome
    · cases hpc

theorem WorkerPc.running_of_configured {pc : WorkerPc} (h : pc.configured = true) :
    pc.phase ≠ .done := by
  intro hdone
  rw [WorkerPc.phase_eq_done hdone] at h
  cases h

theorem Sys.ValidWf.step (h : s.ValidWf config) (hwf : s.Wf) {l : Label}
    (hstep : s.step P config l = some s') : s'.ValidWf config := by
  cases Sys.step_move hstep with
  | tick ticks => exact ⟨h.override, h.shared, h.thread, h.configured, h.saved⟩
  | places label places =>
    refine ⟨h.override, by rw [places.shared]; exact h.shared, ?_, ?_, ?_⟩
    · intro w t configuration ht hpc
      obtain ⟨u, hu, heq⟩ := places.thread ht
      exact h.thread w u configuration hu (heq.trans hpc)
    · intro w t ht hpc
      obtain ⟨u, hu, heq⟩ := places.thread ht
      rw [places.shared]
      exact h.configured w u hu (heq ▸ hpc)
    · intro c call d configuration hc hd
      rcases places.new c call hc with hold | hplain
      · exact h.saved c call d configuration hold hd
      · rw [(CallPc.no_data_of_resets
          (CallPc.resets_false_of_holds (CallPc.of_plain hplain).1)).2] at hd
        cases hd
  | @call c call pc' u choice hc _ move =>
    have hbooks := congrArg RunBooks.configuration move.books
    refine ⟨h.override, ?_, ?_, ?_, ?_⟩
    · intro configuration hconf
      have hconf : (call.pc.writes s.shared).configuration = some configuration :=
        hbooks.symm.trans hconf
      by_cases hres : call.pc.resets = true
      · -- only the rollback writes another configuration: the one it saved
        cases hpc : call.pc <;> rw [hpc] at hconf hres
        case rollbackData k d message =>
          exact h.saved c call d configuration hc (by rw [hpc]; rfl) hconf
        all_goals exact h.shared configuration hconf
      · rw [CallPc.writes_of_not_resets (by simpa using hres)] at hconf
        exact h.shared configuration hconf
    · intro w t configuration ht hpc
      rcases move.thread_of ht with hold | hnew
      · exact h.thread w t configuration hold hpc
      · rw [hnew] at hpc
        cases hpc
    · intro w t ht hpc
      rcases move.thread_of ht with hold | hnew
      · -- the thread is running, so the call is not the rollback
        have hres := hwf.noReset_of_running hold (WorkerPc.running_of_configured hpc) c call hc
        rw [CallPc.writes_of_not_resets hres] at hbooks
        change u.shared.health.sensorConfiguration.isSome = true
        rw [show u.shared.health.sensorConfiguration = _ from hbooks]
        exact h.configured w t hold hpc
      · rw [hnew] at hpc
        cases hpc
    · intro j other d configuration hj hd hconf
      rcases Sys.setCall_cases hj with ⟨rfl, heq⟩ | ⟨-, hj⟩
      · cases heq
        rcases move.data_of hd with hold | rfl
        · exact h.saved j call d configuration hc hold hconf
        · exact h.shared configuration hconf
      · exact h.saved j other d configuration (callMove_calls move ▸ hj) hd hconf
  | @worker w t t' shared' choice ht step move =>
    have hbooks := congrArg RunBooks.configuration (workerStep_books step)
    refine ⟨h.override, ?_, ?_, ?_, h.saved⟩
    · intro configuration hconf
      exact WorkerPc.writes_valid (fun applying => h.thread w t applying ht) h.shared
        (hbooks.symm.trans hconf)
    · intro v u configuration hu hpc
      by_cases heq : v = w
      · subst heq
        have hself : ((s.withShared shared').setWorker v t').workers v = some t' := by
          simp [Sys.setWorker]
        rw [hself] at hu
        cases hu
        obtain ⟨transfer, hok⟩ := workerStep_applying step (by rw [hpc]; rfl)
        exact configurationForSession_valid h.override hok
      · refine h.thread v u configuration ?_ hpc
        simpa [Sys.setWorker, Sys.withShared, heq] using hu
    · intro v u hu hpc
      change shared'.health.sensorConfiguration.isSome = true
      rw [show shared'.health.sensorConfiguration = _ from hbooks]
      refine WorkerPc.writes_isSome ?_
      by_cases heq : v = w
      · subst heq
        have hself : ((s.withShared shared').setWorker v t').workers v = some t' := by
          simp [Sys.setWorker]
        rw [hself] at hu
        cases hu
        exact (workerStep_configured step hpc).imp_left (h.configured v t ht)
      · refine .inl (h.configured v u ?_ hpc)
        simpa [Sys.setWorker, Sys.withShared, heq] using hu

theorem validWf_of_reachable (h : (clientLts P config).Reachable s) : s.ValidWf config := by
  refine Lts.Reach.invariant_using (K := Sys.Wf) (I := Sys.ValidWf config)
    (fun s hs => wf_of_reachable hs.reachable) ?_ ?_ h
  · rintro s ⟨clock, hvalid, rfl⟩
    refine ⟨fun _ => validateConfig_override hvalid, ?_, ?_, ?_, ?_⟩
    · intro configuration hconf
      cases hconf
    · intro w t configuration ht
      cases ht
    · intro w t ht
      cases ht
    · intro c call d configuration hc
      cases hc
  · intro s l t _ hstep hwf _ hs
    exact hs.step hwf hstep

/-- A record of a running client is classified, and scaling it yields a
sample. -/
theorem Sys.ValidWf.classifies (h : s.ValidWf config) {w : Nat} {t : Worker}
    (ht : s.workers w = some t) {rx : Reception} {record : RawRecord} {receivedAt : TimePoint}
    (hpc : t.pc = .classify rx record receivedAt) :
    s.shared.health.sensorConfiguration.isSome = true ∧
      ∀ impl decision, s.shared.toImpl.classifyRecord config record receivedAt
          = (impl, .ok decision) →
        ∃ sample, scaleSample P decision.configuration record receivedAt = some sample := by
  have hconf := h.configured w t ht (by rw [hpc]; rfl)
  obtain ⟨configuration, hsome⟩ := Option.isSome_iff_exists.mp hconf
  refine ⟨hconf, fun impl decision hclass => ?_⟩
  simp only [Impl.classifyRecord, hsome, Prod.mk.injEq, Except.ok.injEq] at hclass
  obtain ⟨-, rfl⟩ := hclass
  exact Option.isSome_iff_exists.mp
    (scaleSample_isSome P (h.shared configuration hsome) record receivedAt)

end System

end PyNetFT.Core
