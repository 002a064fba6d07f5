/-
PyNetFT.Core.XmlConfigTheorems — what leaves the configuration scanner.

Every `substr` of the scanner starts inside its view, so the
`std::out_of_range` branch of `substr` is dead on every input and
`configurationForSession` can only fail with a `DiscoveryError`
(`configurationForSession_error`). The scan itself makes progress: each
turn moves the position forward and never past the end
(`scanStep_position`), so the bound of the loop is never what ends it.
-/
import PyNetFT.Core.XmlConfig

namespace PyNetFT.Core

/-- The computation fails, if at all, with a `DiscoveryError`. -/
def OnlyDiscovery {α : Type} (x : Except Exception α) : Prop :=
  ∀ e, x = .error e → ∃ message, e = .discovery message

namespace OnlyDiscovery

variable {α β : Type}

theorem ok (a : α) : OnlyDiscovery (.ok a) := by
  intro e h
  cases h

theorem throw (message : String) : OnlyDiscovery (.error (.discovery message) : Except _ α) := by
  intro e h
  cases h
  exact ⟨message, rfl⟩

theorem bind {x : Except Exception α} {f : α → Except Exception β} (hx : OnlyDiscovery x)
    (hf : ∀ a, x = .ok a → OnlyDiscovery (f a)) : OnlyDiscovery (x >>= f) := by
  intro e h
  cases x with
  | error e' =>
    cases h
    exact hx _ rfl
  | ok a => exact hf a rfl e h

theorem ite {c : Prop} [Decidable c] {x y : Except Exception α} (hx : c → OnlyDiscovery x)
    (hy : ¬ c → OnlyDiscovery y) : OnlyDiscovery (if c then x else y) := by
  split
  · exact hx ‹_›
  · exact hy ‹_›

end OnlyDiscovery

/-! ## Positions -/

theorem substr_ok {view : View} {pos count : Nat} (h : pos ≤ view.length) :
    substr view pos count = .ok ((view.drop pos).take count) := by
  simp [substr, Nat.not_lt.mpr h]

theorem onlyDiscovery_substr {view : View} {pos : Nat} (count : Nat) (h : pos ≤ view.length) :
    OnlyDiscovery (substr view pos count) := by
  rw [substr_ok h]
  exact OnlyDiscovery.ok _

theorem findAux_bounds {pattern rest : View} {i found : Nat}
    (h : findAux pattern rest i = some found) :
    i ≤ found ∧ found + pattern.length ≤ i + rest.length := by
  induction rest generalizing i with
  | nil =>
    simp only [findAux] at h
    split at h
    · rename_i hp
      cases h
      simp [hp]
    · cases h
  | cons c rest ih =>
    simp only [findAux] at h
    split at h
    · rename_i hp
      cases h
      have hlen := congrArg List.length hp
      rw [List.length_take] at hlen
      exact ⟨Nat.le_refl _, by omega⟩
    · obtain ⟨h1, h2⟩ := ih h
      simp only [List.length_cons]
      omega

/-- What `find` returns starts at or after `pos` and fits the view. -/
theorem find_bounds {view pattern : View} {pos found : Nat}
    (h : find view pattern pos = some found) :
    pos ≤ found ∧ found + pattern.length ≤ view.length := by
  simp only [find] at h
  split at h
  · cases h
  · obtain ⟨h1, h2⟩ := findAux_bounds h
    rw [List.length_drop] at h2
    omega

theorem findTagEndAux_bounds {quote : Option UInt8} {rest : View} {i found : Nat}
    (h : findTagEndAux quote rest i = some found) : i ≤ found ∧ found < i + rest.length := by
  induction rest generalizing quote i with
  | nil => cases quote <;> simp [findTagEndAux] at h
  | cons c rest ih =>
    simp only [List.length_cons]
    cases quote with
    | some q =>
      simp only [findTagEndAux] at h
      have := ih h
      omega
    | none =>
      simp only [findTagEndAux] at h
      split at h
      · have := ih h
        omega
      · split at h
        · cases h
          omega
        · have := ih h
          omega

theorem findTagEnd_bounds {xml : View} {start found : Nat} (hstart : start ≤ xml.length)
    (h : findTagEnd xml start = .ok found) : start ≤ found ∧ found < xml.length := by
  simp only [findTagEnd] at h
  split at h
  · rename_i position hfound
    cases h
    have := findTagEndAux_bounds hfound
    rw [List.length_drop] at this
    omega
  · cases h

theorem onlyDiscovery_findTagEnd (xml : View) (start : Nat) :
    OnlyDiscovery (findTagEnd xml start) := by
  simp only [findTagEnd]
  split
  · exact OnlyDiscovery.ok _
  · exact OnlyDiscovery.throw _

@[simp] theorem length_ascii_lt : (ascii "<").length = 1 := rfl
@[simp] theorem length_ascii_commentEnd : (ascii "-->").length = 3 := rfl
@[simp] theorem length_ascii_cdataEnd : (ascii "]]>").length = 3 := rfl
@[simp] theorem length_ascii_piEnd : (ascii "?>").length = 2 := rfl

/-! ## Tags -/

theorem onlyDiscovery_scanEndTag (s : ScanState) {tag : View} (tagEnd : Nat) (h : tag ≠ []) :
    OnlyDiscovery (scanEndTag s tag tagEnd) := by
  unfold scanEndTag
  have hlen : 0 < tag.length := List.length_pos_iff.mpr h
  refine OnlyDiscovery.bind (onlyDiscovery_substr _ hlen) fun name _ => ?_
  split
  · exact OnlyDiscovery.ite (fun _ => OnlyDiscovery.throw _) (fun _ => OnlyDiscovery.ok _)
  · exact OnlyDiscovery.throw _

theorem onlyDiscovery_splitSelfClosing (tag : View) : OnlyDiscovery (splitSelfClosing tag) := by
  unfold splitSelfClosing
  refine OnlyDiscovery.ite (fun _ => ?_) (fun _ => OnlyDiscovery.ok _)
  exact OnlyDiscovery.bind (onlyDiscovery_substr _ (Nat.zero_le _)) fun _ _ => OnlyDiscovery.ok _

theorem onlyDiscovery_openElement (s : ScanState) (name : View) (selfClosing : Bool)
    (tagEnd : Nat) : OnlyDiscovery (openElement s name selfClosing tagEnd) := by
  unfold openElement
  refine OnlyDiscovery.ite (fun _ => OnlyDiscovery.throw _) (fun _ => ?_)
  split
  · exact OnlyDiscovery.ok _
  · exact OnlyDiscovery.ite (fun _ => OnlyDiscovery.throw _) (fun _ => OnlyDiscovery.ok _)

theorem onlyDiscovery_scanStartTag (s : ScanState) (tag : View) (tagEnd : Nat) :
    OnlyDiscovery (scanStartTag s tag tagEnd) := by
  unfold scanStartTag
  refine OnlyDiscovery.bind (onlyDiscovery_splitSelfClosing tag) fun split _ => ?_
  refine OnlyDiscovery.bind (onlyDiscovery_substr _ (Nat.zero_le _)) fun name _ => ?_
  exact OnlyDiscovery.ite (fun _ => OnlyDiscovery.throw _)
    (fun _ => onlyDiscovery_openElement s name split.1 tagEnd)

theorem onlyDiscovery_scanMarkup (xml : View) (s : ScanState) {markup : Nat}
    (h : markup < xml.length) : OnlyDiscovery (scanMarkup xml s markup) := by
  unfold scanMarkup
  refine OnlyDiscovery.bind (onlyDiscovery_substr _ h.le) fun head4 _ => ?_
  refine OnlyDiscovery.ite (fun _ => ?_) fun _ => ?_
  · split
    · exact OnlyDiscovery.throw _
    · exact OnlyDiscovery.ok _
  refine OnlyDiscovery.bind (onlyDiscovery_substr _ h.le) fun head9 _ => ?_
  refine OnlyDiscovery.ite (fun _ => ?_) fun _ => ?_
  · split
    · exact OnlyDiscovery.throw _
    · rename_i e he
      -- the terminator lies past the opening, so the text starts inside
      have hb := find_bounds he
      exact OnlyDiscovery.bind (onlyDiscovery_substr _ (by omega)) fun _ _ => OnlyDiscovery.ok _
  refine OnlyDiscovery.bind (onlyDiscovery_substr _ h.le) fun head2 _ => ?_
  refine OnlyDiscovery.ite (fun _ => ?_) fun _ => ?_
  · split
    · exact OnlyDiscovery.throw _
    · exact OnlyDiscovery.ok _
  refine OnlyDiscovery.bind (onlyDiscovery_substr _ h.le) fun head2 _ => ?_
  refine OnlyDiscovery.ite (fun _ => OnlyDiscovery.throw _) fun _ => ?_
  refine OnlyDiscovery.bind (onlyDiscovery_findTagEnd _ _) fun tagEnd _ => ?_
  refine OnlyDiscovery.bind (onlyDiscovery_substr _ h) fun tag _ => ?_
  refine OnlyDiscovery.ite (fun _ => OnlyDiscovery.throw _) fun hne => ?_
  exact OnlyDiscovery.ite (fun _ => onlyDiscovery_scanEndTag s tagEnd hne)
    (fun _ => onlyDiscovery_scanStartTag s _ tagEnd)

/-! ## The scan -/

theorem onlyDiscovery_scanStep (xml : View) {s : ScanState} (h : s.position < xml.length) :
    OnlyDiscovery (scanStep xml s) := by
  unfold scanStep
  split
  · exact OnlyDiscovery.bind (onlyDiscovery_substr _ h.le) fun _ _ => OnlyDiscovery.ok _
  · rename_i markup hmarkup
    have hb := find_bounds hmarkup
    simp only [length_ascii_lt] at hb
    exact OnlyDiscovery.bind (onlyDiscovery_substr _ h.le) fun _ _ =>
      onlyDiscovery_scanMarkup xml _ hb.2

theorem onlyDiscovery_scanLoop (xml : View) (fuel : Nat) (s : ScanState) :
    OnlyDiscovery (scanLoop xml fuel s) := by
  induction fuel generalizing s with
  | zero => exact OnlyDiscovery.ok _
  | succ fuel ih =>
    simp only [scanLoop]
    split
    · rename_i h
      have hstep := onlyDiscovery_scanStep xml h
      split
      · rename_i e he
        intro e' heq
        cases heq
        exact hstep _ he
      · exact ih _
    · exact OnlyDiscovery.ok _

/-! ## Progress of the scan -/

@[simp] theorem appendRequiredText_elements (s : ScanState) (text : View) :
    (s.appendRequiredText text).elements = s.elements := by
  unfold ScanState.appendRequiredText
  split <;> rfl

@[simp] theorem appendRequiredText_position (s : ScanState) (text : View) :
    (s.appendRequiredText text).position = s.position := by
  unfold ScanState.appendRequiredText
  split <;> rfl

theorem scanEndTag_position {s s' : ScanState} {tag : View} {tagEnd : Nat}
    (h : scanEndTag s tag tagEnd = .ok s') : s'.position = tagEnd + 1 := by
  unfold scanEndTag at h
  obtain ⟨name, -, h⟩ := bind_ok h
  simp only at h
  split at h
  · split at h
    · cases h
    · cases h
      rfl
  · cases h

theorem openElement_position {s s' : ScanState} {name : View} {selfClosing : Bool} {tagEnd : Nat}
    (h : openElement s name selfClosing tagEnd = .ok s') : s'.position = tagEnd + 1 := by
  unfold openElement at h
  simp only at h
  split at h
  · cases h
  · split at h
    · cases h
      rfl
    · split at h
      · cases h
      · cases h
        rfl

theorem scanStartTag_position {s s' : ScanState} {tag : View} {tagEnd : Nat}
    (h : scanStartTag s tag tagEnd = .ok s') : s'.position = tagEnd + 1 := by
  unfold scanStartTag at h
  obtain ⟨split, -, h⟩ := bind_ok h
  obtain ⟨name, -, h⟩ := bind_ok h
  split at h
  · cases h
  · exact openElement_position h

theorem scanMarkup_position {xml : View} {s s' : ScanState} {markup : Nat}
    (hm : markup < xml.length) (h : scanMarkup xml s markup = .ok s') :
    markup < s'.position ∧ s'.position ≤ xml.length := by
  unfold scanMarkup at h
  obtain ⟨head4, -, h⟩ := bind_ok h
  split at h
  · split at h
    · cases h
    · rename_i e he
      have hb := find_bounds he
      cases h
      simp only [length_ascii_commentEnd] at hb
      simp only
      omega
  obtain ⟨head9, -, h⟩ := bind_ok h
  split at h
  · split at h
    · cases h
    · rename_i e he
      have hb := find_bounds he
      obtain ⟨text, -, h⟩ := bind_ok h
      cases h
      simp only [length_ascii_cdataEnd] at hb
      simp only
      omega
  obtain ⟨head2, -, h⟩ := bind_ok h
  split at h
  · split at h
    · cases h
    · rename_i e he
      have hb := find_bounds he
      cases h
      simp only [length_ascii_piEnd] at hb
      simp only
      omega
  obtain ⟨head2', -, h⟩ := bind_ok h
  split at h
  · cases h
  obtain ⟨tagEnd, htag, h⟩ := bind_ok h
  have hb := findTagEnd_bounds hm htag
  obtain ⟨tag, -, h⟩ := bind_ok h
  simp only at h
  split at h
  · cases h
  · split at h
    · rw [scanEndTag_position h]
      omega
    · rw [scanStartTag_position h]
      omega

/-- Each turn of the loop moves the position forward, not past the end. -/
theorem scanStep_position {xml : View} {s s' : ScanState} (hs : s.position < xml.length)
    (h : scanStep xml s = .ok s') : s.position < s'.position ∧ s'.position ≤ xml.length := by
  unfold scanStep at h
  split at h
  · obtain ⟨text, -, h⟩ := bind_ok h
    cases h
    exact ⟨hs, Nat.le_refl _⟩
  · rename_i markup hmarkup
    obtain ⟨text, -, h⟩ := bind_ok h
    have hb := find_bounds hmarkup
    simp only [length_ascii_lt] at hb
    have := scanMarkup_position (by omega) h
    omega

/-- With a turn for every byte left, the loop ends because the input
does. -/
theorem scanLoop_position {xml : View} {fuel : Nat} {s s' : ScanState}
    (hfuel : xml.length ≤ s.position + fuel) (h : scanLoop xml fuel s = .ok s') :
    xml.length ≤ s'.position := by
  induction fuel generalizing s with
  | zero =>
    cases h
    omega
  | succ fuel ih =>
    simp only [scanLoop] at h
    split at h
    · rename_i hs
      split at h
      · cases h
      · rename_i s'' hstep
        have := scanStep_position hs hstep
        exact ih (by omega) h
    · cases h
      omega

/-! ## The fields -/

theorem onlyDiscovery_finishField (s : ScanState) (index : Fin 5) :
    OnlyDiscovery (finishField s index) := by
  unfold finishField
  refine OnlyDiscovery.ite (fun _ => ?_) (fun _ => ?_)
  · exact OnlyDiscovery.ite (fun _ => OnlyDiscovery.ok _) (fun _ => OnlyDiscovery.throw _)
  · refine OnlyDiscovery.ite (fun _ => OnlyDiscovery.throw _) (fun _ => ?_)
    exact OnlyDiscovery.ite (fun _ => OnlyDiscovery.throw _) (fun _ => OnlyDiscovery.ok _)

theorem onlyDiscovery_mapM {α β : Type} {f : α → Except Exception β}
    (hf : ∀ a, OnlyDiscovery (f a)) (xs : List α) : OnlyDiscovery (xs.mapM f) := by
  induction xs with
  | nil =>
    rw [List.mapM_nil]
    exact OnlyDiscovery.ok _
  | cons x xs ih =>
    rw [List.mapM_cons]
    exact OnlyDiscovery.bind (hf x) fun _ _ =>
      OnlyDiscovery.bind ih fun _ _ => OnlyDiscovery.ok _

theorem onlyDiscovery_extractRequiredFields (xml : View) :
    OnlyDiscovery (extractRequiredFields xml) := by
  unfold extractRequiredFields
  refine OnlyDiscovery.bind (onlyDiscovery_scanLoop xml _ _) fun s _ => ?_
  exact OnlyDiscovery.ite (fun _ => OnlyDiscovery.throw _)
    (fun _ => onlyDiscovery_mapM (onlyDiscovery_finishField s) _)

/-! ## The configuration and the request -/

theorem onlyDiscovery_parsePositiveCount (P : Platform) (value : View) (tag : String) :
    OnlyDiscovery (parsePositiveCount P value tag) := by
  unfold parsePositiveCount
  refine OnlyDiscovery.ite (fun _ => OnlyDiscovery.throw _) (fun _ => ?_)
  split
  · exact OnlyDiscovery.throw _
  · exact OnlyDiscovery.ite (fun _ => OnlyDiscovery.throw _) (fun _ => OnlyDiscovery.ok _)

theorem onlyDiscovery_parseForceUnit (value : View) : OnlyDiscovery (parseForceUnit value) := by
  unfold parseForceUnit
  split
  · exact OnlyDiscovery.throw _
  · exact OnlyDiscovery.throw _
  · exact OnlyDiscovery.ok _

theorem onlyDiscovery_parseTorqueUnit (value : View) : OnlyDiscovery (parseTorqueUnit value) := by
  unfold parseTorqueUnit
  split
  · exact OnlyDiscovery.throw _
  · exact OnlyDiscovery.throw _
  · exact OnlyDiscovery.ok _

theorem onlyDiscovery_parseSensorConfiguration (P : Platform) (xml : View) :
    OnlyDiscovery (parseSensorConfiguration P xml) := by
  unfold parseSensorConfiguration
  refine OnlyDiscovery.bind (onlyDiscovery_extractRequiredFields xml) fun fields _ => ?_
  refine OnlyDiscovery.bind (onlyDiscovery_parsePositiveCount P _ _) fun force _ => ?_
  refine OnlyDiscovery.bind (onlyDiscovery_parsePositiveCount P _ _) fun torque _ => ?_
  refine OnlyDiscovery.bind (onlyDiscovery_parseForceUnit _) fun forceUnit _ => ?_
  refine OnlyDiscovery.bind (onlyDiscovery_parseTorqueUnit _) fun torqueUnit _ => ?_
  simp only
  split
  · exact OnlyDiscovery.throw _
  · exact OnlyDiscovery.ok _

theorem onlyDiscovery_timeoutMilliseconds (timeout : Binary64) (name : String) :
    OnlyDiscovery (timeoutMilliseconds timeout name) := by
  unfold timeoutMilliseconds
  refine OnlyDiscovery.ite (fun _ => OnlyDiscovery.throw _) (fun _ => ?_)
  exact OnlyDiscovery.ite (fun _ => OnlyDiscovery.throw _) (fun _ => OnlyDiscovery.ok _)

theorem onlyDiscovery_validateOptions (config : Config) :
    OnlyDiscovery (validateOptions config) := by
  unfold validateOptions
  refine OnlyDiscovery.ite (fun _ => OnlyDiscovery.throw _) (fun _ => ?_)
  refine OnlyDiscovery.ite (fun _ => OnlyDiscovery.throw _) (fun _ => ?_)
  refine OnlyDiscovery.bind (onlyDiscovery_timeoutMilliseconds _ _) fun _ _ => ?_
  exact OnlyDiscovery.bind (onlyDiscovery_timeoutMilliseconds _ _) fun _ _ => OnlyDiscovery.ok _

/-- **Only a `DiscoveryError` leaves `configuration_for_session`**,
whatever the sensor's HTTP server answers. -/
theorem configurationForSession_error (P : Platform) (config : Config) (transfer : Transfer) :
    OnlyDiscovery (configurationForSession P config transfer) := by
  unfold configurationForSession
  split
  · exact OnlyDiscovery.ok _
  · unfold discoverSensor
    refine OnlyDiscovery.bind (onlyDiscovery_validateOptions config) fun _ _ => ?_
    split
    · exact OnlyDiscovery.throw _
    · refine OnlyDiscovery.ite (fun _ => OnlyDiscovery.throw _) (fun _ => ?_)
      exact OnlyDiscovery.ite (fun _ => OnlyDiscovery.throw _)
        (fun _ => onlyDiscovery_parseSensorConfiguration P _)

end PyNetFT.Core
