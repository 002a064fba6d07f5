/-
PyNetFT.Core.XmlSafety — the configuration scanner on arbitrary bytes.

`Scanned xml s` are the states at the head of the loop of
`extract_required_fields`. In every one of them the position is inside
the document, only the top of the element stack is a required element,
and the next turn either raises a `DiscoveryError` or moves the position
forward. `parse_sensor_configuration_safe` adds what comes behind the
loop: whatever the bytes are, the result is a configuration that passes
`validate`, or a `DiscoveryError`.
-/
import PyNetFT.Core.XmlConfigTheorems

namespace PyNetFT.Core

/-- The states at the head of the loop of `extract_required_fields`. -/
inductive Scanned (xml : View) : ScanState → Prop where
  | start : Scanned xml {}
  | turn {s s' : ScanState} : Scanned xml s → s.position < xml.length →
      scanStep xml s = .ok s' → Scanned xml s'

/-- Only the top of the stack may be a required element. -/
def OnlyTopRequired (elements : List OpenElement) : Prop :=
  ∀ element ∈ elements.tail, element.requiredIndex = none

/-! ## The element stack -/

theorem scanEndTag_elements {s s' : ScanState} {tag : View} {tagEnd : Nat}
    (h : scanEndTag s tag tagEnd = .ok s') : s'.elements = s.elements.tail := by
  unfold scanEndTag at h
  obtain ⟨name, -, h⟩ := bind_ok h
  simp only at h
  split at h
  · rename_i top rest helements
    split at h
    · cases h
    · cases h
      rw [helements, List.tail_cons]
  · cases h

/-- An element is opened only where the top is not a required one. -/
theorem openElement_elements {s s' : ScanState} {name : View} {selfClosing : Bool} {tagEnd : Nat}
    (h : openElement s name selfClosing tagEnd = .ok s') :
    s.openRequired = none ∧
      (s'.elements = s.elements ∨ s'.elements = ⟨name, requiredTagIndex name⟩ :: s.elements) := by
  unfold openElement at h
  simp only at h
  split at h
  · cases h
  · rename_i hopen
    refine ⟨by simpa using hopen, ?_⟩
    have hstack : s'.elements
        = if selfClosing then s.elements else ⟨name, requiredTagIndex name⟩ :: s.elements := by
      split at h
      · cases h
        rfl
      · split at h
        · cases h
        · cases h
          rfl
    rw [hstack]
    cases selfClosing with
    | true => exact .inl rfl
    | false => exact .inr rfl

/-- What one piece of markup does to the stack. -/
theorem scanMarkup_elements {xml : View} {s s' : ScanState} {markup : Nat}
    (h : scanMarkup xml s markup = .ok s') :
    s'.elements = s.elements ∨ s'.elements = s.elements.tail ∨
      s.openRequired = none ∧
        ∃ name, s'.elements = ⟨name, requiredTagIndex name⟩ :: s.elements := by
  unfold scanMarkup at h
  obtain ⟨head4, -, h⟩ := bind_ok h
  split at h
  · split at h
    · cases h
    · cases h
      exact .inl rfl
  obtain ⟨head9, -, h⟩ := bind_ok h
  split at h
  · split at h
    · cases h
    · obtain ⟨text, -, h⟩ := bind_ok h
      cases h
      exact .inl (appendRequiredText_elements s text)
  obtain ⟨head2, -, h⟩ := bind_ok h
  split at h
  · split at h
    · cases h
    · cases h
      exact .inl rfl
  obtain ⟨head2', -, h⟩ := bind_ok h
  split at h
  · cases h
  obtain ⟨tagEnd, -, h⟩ := bind_ok h
  obtain ⟨tag, -, h⟩ := bind_ok h
  simp only at h
  split at h
  · cases h
  · split at h
    · exact .inr (.inl (scanEndTag_elements h))
    · unfold scanStartTag at h
      obtain ⟨parts, -, h⟩ := bind_ok h
      obtain ⟨name, -, h⟩ := bind_ok h
      split at h
      · cases h
      · obtain ⟨hopen, hstack⟩ := openElement_elements h
        rcases hstack with hsame | hpush
        · exact .inl hsame
        · exact .inr (.inr ⟨hopen, name, hpush⟩)

theorem OnlyTopRequired.tail {elements : List OpenElement} (h : OnlyTopRequired elements) :
    OnlyTopRequired elements.tail :=
  fun element hmem => h element (List.mem_of_mem_tail hmem)

/-- A new top is put on a stack without required elements. -/
theorem OnlyTopRequired.push {s : ScanState} (h : OnlyTopRequired s.elements)
    (hopen : s.openRequired = none) (element : OpenElement) :
    OnlyTopRequired (element :: s.elements) := by
  intro e he
  rw [List.tail_cons] at he
  unfold ScanState.openRequired at hopen
  cases hs : s.elements with
  | nil =>
    rw [hs] at he
    cases he
  | cons top rest =>
    rw [hs] at he hopen h
    rcases List.mem_cons.mp he with rfl | hrest
    · exact hopen
    · exact h e hrest

theorem OnlyTopRequired.scanStep {xml : View} {s s' : ScanState} (hs : OnlyTopRequired s.elements)
    (h : PyNetFT.Core.scanStep xml s = .ok s') : OnlyTopRequired s'.elements := by
  unfold PyNetFT.Core.scanStep at h
  split at h
  · obtain ⟨text, -, h⟩ := bind_ok h
    cases h
    rwa [appendRequiredText_elements]
  · obtain ⟨text, -, h⟩ := bind_ok h
    have htext : OnlyTopRequired (s.appendRequiredText text).elements := by
      rwa [appendRequiredText_elements]
    rcases scanMarkup_elements h with hsame | hpop | ⟨hopen, name, hpush⟩
    · rwa [hsame]
    · rw [hpop]
      exact htext.tail
    · rw [hpush]
      exact htext.push hopen _

/-! ## The loop -/

theorem Scanned.position {xml : View} {s : ScanState} (h : Scanned xml s) :
    s.position ≤ xml.length := by
  cases h with
  | start => exact Nat.zero_le _
  | turn _ hlt hstep => exact (scanStep_position hlt hstep).2

theorem Scanned.onlyTopRequired {xml : View} {s : ScanState} (h : Scanned xml s) :
    OnlyTopRequired s.elements := by
  induction h with
  | start =>
    intro element hmem
    cases hmem
  | turn _ _ hstep ih => exact ih.scanStep hstep

/-- A turn for every byte left is enough: more of them change nothing. -/
theorem scanLoop_fuel {xml : View} {fuel : Nat} {s : ScanState}
    (hfuel : xml.length ≤ s.position + fuel) (n : Nat) :
    scanLoop xml (fuel + n) s = scanLoop xml fuel s := by
  induction fuel generalizing s with
  | zero =>
    cases n with
    | zero => rfl
    | succ n =>
      have hread : ¬ s.position < xml.length := by omega
      simp only [scanLoop, if_neg hread]
  | succ fuel ih =>
    rw [Nat.add_right_comm, scanLoop, scanLoop]
    split
    · rename_i hlt
      cases hstep : scanStep xml s with
      | error e => rfl
      | ok s' =>
        have hmoved := scanStep_position hlt hstep
        exact ih (by omega)
    · rfl

/-- The loop ends in one of its states, with the whole document read. -/
theorem Scanned.scanLoop {xml : View} {fuel : Nat} {s s' : ScanState} (hs : Scanned xml s)
    (h : PyNetFT.Core.scanLoop xml fuel s = .ok s') : Scanned xml s' := by
  induction fuel generalizing s with
  | zero =>
    cases h
    exact hs
  | succ fuel ih =>
    simp only [PyNetFT.Core.scanLoop] at h
    split at h
    · rename_i hlt
      split at h
      · cases h
      · rename_i t hstep
        exact ih (.turn hs hlt hstep) h
    · cases h
      exact hs

/-! ## The configuration -/

theorem parseSensorConfiguration_validated {P : Platform} {xml : View}
    {configuration : SensorConfiguration} (h : parseSensorConfiguration P xml = .ok configuration) :
    validateCalibration configuration.calibration = .ok () := by
  unfold parseSensorConfiguration at h
  obtain ⟨fields, -, h⟩ := bind_ok h
  obtain ⟨force, -, h⟩ := bind_ok h
  obtain ⟨torque, -, h⟩ := bind_ok h
  obtain ⟨forceUnit, -, h⟩ := bind_ok h
  obtain ⟨torqueUnit, -, h⟩ := bind_ok h
  simp only at h
  split at h
  · cases h
  · rename_i hvalid
    cases h
    exact hvalid

/-- **The scanner on untrusted bytes.** At every head of its loop the
position is inside the document and only the top of the stack is a
required element; a turn of the loop raises nothing but a
`DiscoveryError` and otherwise moves the position forward, not past the
end; the loop ends with the document read, and no bound on its turns is
what ends it. The parser returns a configuration that passes `validate`
or throws a `DiscoveryError`. -/
theorem parse_sensor_configuration_safe (P : Platform) (xml : View) :
    (∀ s, Scanned xml s →
      s.position ≤ xml.length ∧ OnlyTopRequired s.elements ∧
      (s.position < xml.length → OnlyDiscovery (scanStep xml s) ∧
        ∀ s', scanStep xml s = .ok s' → s.position < s'.position ∧ s'.position ≤ xml.length)) ∧
    (∀ n, scanLoop xml (xml.length + n) {} = scanLoop xml xml.length {}) ∧
    (∀ s, scanLoop xml xml.length {} = .ok s → Scanned xml s ∧ s.position = xml.length) ∧
    OnlyDiscovery (extractRequiredFields xml) ∧
    ((∃ configuration, parseSensorConfiguration P xml = .ok configuration ∧
        validateCalibration configuration.calibration = .ok ()) ∨
      ∃ message, parseSensorConfiguration P xml = .error (.discovery message)) := by
  refine ⟨?_, ?_, ?_, onlyDiscovery_extractRequiredFields xml, ?_⟩
  · intro s hs
    refine ⟨hs.position, hs.onlyTopRequired, fun hlt => ?_⟩
    exact ⟨onlyDiscovery_scanStep xml hlt, fun s' hstep => scanStep_position hlt hstep⟩
  · intro n
    exact scanLoop_fuel (by simp) n
  · intro s hloop
    have hs := Scanned.start.scanLoop hloop
    have hend := scanLoop_position (by simp) hloop
    exact ⟨hs, le_antisymm hs.position hend⟩
  · cases hparse : parseSensorConfiguration P xml with
    | ok configuration =>
      exact .inl ⟨configuration, rfl, parseSensorConfiguration_validated hparse⟩
    | error e =>
      obtain ⟨message, rfl⟩ := onlyDiscovery_parseSensorConfiguration P xml e hparse
      exact .inr ⟨message, rfl⟩

end PyNetFT.Core
