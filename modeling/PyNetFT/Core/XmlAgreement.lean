/-
PyNetFT.Core.XmlAgreement — `extract_required_fields` agrees with the
reference of `XmlGrammar` on every byte string.

`XmlLexing` has taken the loop apart into tokens; what is left is a
machine with a stack, an array of contents and an array of flags that
reads a list of tokens. Its stack is the stack of `PyNetFT.Lib.balance`,
so what it accepts is a forest (`forest_of_acts`), and what it does with
a forest follows the forest's own recursion (`acts_forest`): inside a
required element it collects text, elsewhere it records the required
elements one by one.
-/
import PyNetFT.Core.XmlLexing

namespace PyNetFT.Core

open PyNetFT.Lib

/-- The nesting of a document. -/
abbrev SameName (first : StartTag) (last : EndTag) : Prop := first.name = last.name

/-! ## Sequences of tokens -/

theorem acts_cons {s s' : ScanState} {token : Token} {tokens : List Token} :
    (token :: tokens).foldlM act s = .ok s' ↔
      ∃ u, act s token = .ok u ∧ tokens.foldlM act u = .ok s' := by
  rw [List.foldlM_cons]
  cases act s token with
  | error e => simp [bind, Except.bind]
  | ok u => simp [bind, Except.bind]

theorem acts_append {s s' : ScanState} {front back : List Token} :
    (front ++ back).foldlM act s = .ok s' ↔
      ∃ u, front.foldlM act s = .ok u ∧ back.foldlM act u = .ok s' := by
  rw [List.foldlM_append]
  cases front.foldlM act s with
  | error e => simp [bind, Except.bind]
  | ok u => simp [bind, Except.bind]

/-! ## The stack -/

theorem openElement_names {s s' : ScanState} {name : View} {selfClosing : Bool} {tagEnd : Nat}
    (h : openElement s name selfClosing tagEnd = .ok s') :
    s'.elements.map OpenElement.name
      = if selfClosing then s.elements.map OpenElement.name
        else name :: s.elements.map OpenElement.name := by
  unfold openElement at h
  dsimp only at h
  split at h
  · cases h
  · split at h
    · cases h
      cases selfClosing <;> rfl
    · split at h
      · cases h
      · cases h
        cases selfClosing <;> rfl

theorem map_ok {α β : Type} {x : Except Exception α} {f : α → β} {b : β}
    (h : x.map f = .ok b) : ∃ a, x = .ok a ∧ f a = b := by
  cases x with
  | error e => cases h
  | ok a => exact ⟨a, rfl, Except.ok.inj h⟩

/-- The names on the scanner's stack are those `balance` keeps. -/
theorem balance_of_acts {tokens : List Token} {s s' : ScanState} {stack : List StartTag}
    (hstack : s.elements.map OpenElement.name = stack.map StartTag.name)
    (h : tokens.foldlM act s = .ok s') :
    ∃ stack', balance SameName stack tokens = some stack' ∧
      s'.elements.map OpenElement.name = stack'.map StartTag.name := by
  induction tokens generalizing s stack with
  | nil =>
    cases h
    exact ⟨stack, rfl, hstack⟩
  | cons token tokens ih =>
    obtain ⟨u, hact, hrun⟩ := acts_cons.mp h
    cases token with
    | leaf l =>
      refine ih ?_ hrun
      cases l with
      | text bytes =>
        cases hact
        rw [appendRequiredText_elements, hstack]
      | cdata body =>
        cases hact
        rw [appendRequiredText_elements, hstack]
      | comment | instruction =>
        cases hact
        exact hstack
      | empty tag =>
        obtain ⟨v, hv, rfl⟩ := map_ok hact
        exact (openElement_names hv).trans hstack
    | opening tag =>
      have hpush : u.elements.map OpenElement.name = (tag :: stack).map StartTag.name := ?_
      · exact ih hpush hrun
      obtain ⟨v, hv, rfl⟩ := map_ok hact
      rw [List.map_cons, ← hstack]
      exact openElement_names hv
    | closing tag =>
      simp only [act, closeElement] at hact
      split at hact
      · rename_i top rest hel
        split at hact
        · rename_i htop
          cases hact
          cases stack with
          | nil =>
            rw [hel] at hstack
            cases hstack
          | cons first stack =>
            rw [hel, List.map_cons, List.map_cons] at hstack
            obtain ⟨hname, hrest⟩ := List.cons.inj hstack
            rw [balance, if_pos (show SameName first tag from hname.symm.trans htop)]
            exact ih hrest hrun
        · cases hact
      · cases hact

/-- What is accepted with an empty stack at both ends is a forest. -/
theorem forest_of_acts {tokens : List Token} {s s' : ScanState} (hs : s.elements = [])
    (hs' : s'.elements = []) (h : tokens.foldlM act s = .ok s') :
    ∃ document : Document, document.Matched SameName ∧ document.flatten = tokens := by
  obtain ⟨stack, hbalance, hstack⟩ := balance_of_acts
    (show _ = List.map StartTag.name [] by rw [hs]; rfl) h
  have hnil : stack = [] := by
    rw [hs', List.map_nil] at hstack
    exact List.map_eq_nil_iff.mp hstack.symm
  rw [hnil] at hbalance
  exact (balance_eq_nil_iff SameName tokens).mp hbalance

/-! ## Inside a required element -/

namespace Document

/-- A forest without elements has no required ones. -/
theorem required_textOnly {document : Document} (h : TextOnly document) :
    required document = [] ∧ FieldsText document := by
  induction document with
  | nil => exact ⟨rfl, trivial⟩
  | leaf l rest ih =>
    cases l with
    | empty tag => exact h.elim
    | text | comment | cdata | instruction => exact ih h
  | node => exact h.elim

end Document

theorem openElement_inside {s : ScanState} {index : Fin 5} (hs : s.openRequired = some index)
    (name : View) (selfClosing : Bool) (tagEnd : Nat) :
    openElement s name selfClosing tagEnd
      = .error (.discovery "sensor configuration fields must contain text only") := by
  simp [openElement, hs]

open Document in
/-- Inside a required element there is text only, and it is collected. -/
theorem acts_textOnly {document : Document} {s s' : ScanState} {index : Fin 5}
    (hs : s.openRequired = some index) :
    document.flatten.foldlM act s = .ok s' ↔
      TextOnly document ∧ s' = s.appendRequiredText (content document) := by
  have htext : ∀ (bytes : View) {rest : Document},
      (∀ {s : ScanState}, s.openRequired = some index →
        (rest.flatten.foldlM act s = .ok s' ↔
          TextOnly rest ∧ s' = s.appendRequiredText (content rest))) →
      ∀ {s : ScanState}, s.openRequired = some index →
        ((∃ u, (.ok (s.appendRequiredText bytes) : Except Exception ScanState) = .ok u ∧
            rest.flatten.foldlM act u = .ok s') ↔
          TextOnly rest ∧ s' = s.appendRequiredText (bytes ++ content rest)) := by
    intro bytes rest ih s hs
    rw [← appendRequiredText_append, ← ih (by rw [appendRequiredText_openRequired, hs])]
    simp
  induction document generalizing s with
  | nil =>
    simp only [Forest.flatten, List.foldlM_nil, TextOnly, content, appendRequiredText_nil, true_and]
    exact ⟨fun h => (Except.ok.inj h).symm, fun h => h ▸ rfl⟩
  | leaf l rest ih =>
    rw [Forest.flatten, acts_cons]
    cases l with
    | text bytes => exact htext bytes ih hs
    | cdata body => exact htext body ih hs
    | comment | instruction =>
      have hskip := htext [] ih hs
      rw [appendRequiredText_nil] at hskip
      exact hskip
    | empty tag =>
      simp only [act, openElement_inside hs]
      constructor
      · rintro ⟨u, hu, -⟩
        cases hu
      · exact fun h => h.1.elim
  | node tag children last rest =>
    rw [Forest.flatten, acts_cons]
    simp only [act, openElement_inside hs]
    constructor
    · rintro ⟨u, hu, -⟩
      cases hu
    · exact fun h => h.1.elim

/-! ## Outside the required elements -/

/-- A required element is recorded, once. -/
def record (s : ScanState) (field : Fin 5 × View) : Option ScanState :=
  if s.seen field.1 then none
  else some { s with
    fields := Function.update s.fields field.1 (s.fields field.1 ++ field.2)
    seen := Function.update s.seen field.1 true }

theorem record_some {s u : ScanState} {field : Fin 5 × View} :
    record s field = some u ↔ s.seen field.1 = false ∧ u = { s with
      fields := Function.update s.fields field.1 (s.fields field.1 ++ field.2)
      seen := Function.update s.seen field.1 true } := by
  cases hseen : s.seen field.1 <;> simp [record, hseen, eq_comm]

theorem records_cons {s s' : ScanState} {field : Fin 5 × View} {items : List (Fin 5 × View)} :
    (field :: items).foldlM record s = some s' ↔
      ∃ u, record s field = some u ∧ items.foldlM record u = some s' := by
  rw [List.foldlM_cons]
  exact Option.bind_eq_some_iff

theorem records_append {s s' : ScanState} {front back : List (Fin 5 × View)} :
    (front ++ back).foldlM record s = some s' ↔
      ∃ u, front.foldlM record s = some u ∧ back.foldlM record u = some s' := by
  rw [List.foldlM_append]
  exact Option.bind_eq_some_iff

def ScanState.push (s : ScanState) (element : OpenElement) : ScanState :=
  { s with elements := element :: s.elements }

theorem record_push (s : ScanState) (element : OpenElement) (field : Fin 5 × View) :
    record (s.push element) field = (record s field).map (·.push element) := by
  cases hseen : s.seen field.1 <;> simp [record, ScanState.push, hseen]

theorem records_push (s : ScanState) (element : OpenElement) (items : List (Fin 5 × View)) :
    items.foldlM record (s.push element) = (items.foldlM record s).map (·.push element) := by
  induction items generalizing s with
  | nil => rfl
  | cons field items ih =>
    rw [List.foldlM_cons, List.foldlM_cons, record_push]
    cases record s field with
    | none => rfl
    | some u => exact ih u

theorem records_elements {items : List (Fin 5 × View)} {s s' : ScanState}
    (h : items.foldlM record s = some s') : s'.elements = s.elements := by
  induction items generalizing s with
  | nil =>
    cases h
    rfl
  | cons field items ih =>
    obtain ⟨u, hfield, h⟩ := records_cons.mp h
    have hsame : u.elements = s.elements := by
      rw [(record_some.mp hfield).2]
    rw [ih h, hsame]

theorem records_openRequired {items : List (Fin 5 × View)} {s s' : ScanState}
    (h : items.foldlM record s = some s') : s'.openRequired = s.openRequired := by
  unfold ScanState.openRequired
  rw [records_elements h]

theorem appendRequiredText_outside {s : ScanState} (hs : s.openRequired = none) (text : View) :
    s.appendRequiredText text = s := by
  rw [ScanState.appendRequiredText, hs]

/-- A self-closing tag: a required element without content, or nothing. -/
theorem act_empty {s u : ScanState} (hs : s.openRequired = none) (tag : EmptyTag) :
    act s (.leaf (.empty tag)) = .ok u ↔
      ((requiredTagIndex tag.name).toList.map fun index => (index, ([] : View))).foldlM record s
        = some u := by
  simp only [act, openElement, hs, Option.isSome_none, Bool.false_eq_true, if_false]
  cases requiredTagIndex tag.name with
  | none =>
    exact ⟨fun h => congrArg some (Except.ok.inj h), fun h => congrArg _ (Option.some.inj h)⟩
  | some index =>
    simp only [Option.toList_some, List.map_cons, List.map_nil, List.foldlM_cons, List.foldlM_nil,
      record, List.append_nil, Function.update_eq_self]
    cases s.seen index with
    | true => simp [Except.map]
    | false => simp [Except.map, ScanState.moved, eq_comm]

/-- A start tag opens an element, a required one for the first time. -/
theorem act_opening {s u : ScanState} (hs : s.openRequired = none) (tag : StartTag) :
    act s (.opening tag) = .ok u ↔
      match requiredTagIndex tag.name with
      | none => u = s.push ⟨tag.name, none⟩
      | some index => s.seen index = false ∧
          u = { s.push ⟨tag.name, some index⟩ with seen := Function.update s.seen index true } := by
  simp only [act, openElement, hs, Option.isSome_none, Bool.false_eq_true, if_false]
  cases requiredTagIndex tag.name with
  | none => simp [Except.map, ScanState.moved, ScanState.push, eq_comm]
  | some index =>
    dsimp only
    cases hseen : s.seen index with
    | true => simp [Except.map]
    | false =>
      simp only [Bool.false_eq_true, if_false, true_and]
      exact ⟨fun h => (Except.ok.inj h).symm, fun h => h ▸ rfl⟩

theorem closeElement_push {s : ScanState} {element : OpenElement} {name : View}
    (h : element.name = name) : closeElement (s.push element) name = .ok s := by
  simp [closeElement, ScanState.push, h]

open Document in
/-- **What the scanner does with a forest** outside the required elements. -/
theorem acts_forest {document : Document} (hmatched : document.Matched SameName)
    {s s' : ScanState} (hs : s.openRequired = none) :
    document.flatten.foldlM act s = .ok s' ↔
      FieldsText document ∧ (required document).foldlM record s = some s' := by
  induction document generalizing s s' with
  | nil =>
    simp only [Forest.flatten, List.foldlM_nil, FieldsText, required, true_and]
    exact ⟨fun h => congrArg some (Except.ok.inj h),
      fun h => congrArg Except.ok (Option.some.inj h)⟩
  | leaf l rest ih =>
    rw [Forest.flatten, acts_cons]
    have hskip : (∃ u, (.ok s : Except Exception ScanState) = .ok u ∧
        rest.flatten.foldlM act u = .ok s') ↔
          FieldsText rest ∧ (required rest).foldlM record s = some s' := by
      rw [← ih hmatched hs]
      simp
    cases l with
    | text | cdata =>
      simp only [act, appendRequiredText_outside hs]
      exact hskip
    | comment | instruction => exact hskip
    | empty tag =>
      simp only [FieldsText, required]
      rw [records_append]
      constructor
      · rintro ⟨u, hact, hrun⟩
        have hu := (act_empty hs tag).mp hact
        rw [ih hmatched ((records_openRequired hu).trans hs)] at hrun
        exact ⟨hrun.1, u, hu, hrun.2⟩
      · rintro ⟨htext, u, hu, hrun⟩
        refine ⟨u, (act_empty hs tag).mpr hu, ?_⟩
        rw [ih hmatched ((records_openRequired hu).trans hs)]
        exact ⟨htext, hrun⟩
  | node tag children last rest ihChildren ihRest =>
    obtain ⟨hname, hchildren, hrest⟩ := hmatched
    rw [Forest.flatten, acts_cons]
    simp only [acts_append, acts_cons, act_opening hs, FieldsText, required]
    cases hindex : requiredTagIndex tag.name with
    | none =>
      -- the element is pushed, its forest recorded, the element popped
      have hpush : (s.push ⟨tag.name, none⟩).openRequired = none := rfl
      simp only [exists_eq_left, ihChildren hchildren hpush, records_push, Option.toList_none,
        List.map_nil, List.nil_append, records_append, Option.isSome_none, Bool.false_eq_true,
        false_imp_iff, true_and]
      constructor
      · rintro ⟨u, ⟨htext, hu⟩, v, hclose, hrun⟩
        obtain ⟨w, hw, rfl⟩ := Option.map_eq_some_iff.mp hu
        obtain rfl : w = v := Except.ok.inj ((closeElement_push hname).symm.trans hclose)
        rw [ihRest hrest ((records_openRequired hw).trans hs)] at hrun
        exact ⟨⟨htext, hrun.1⟩, w, hw, hrun.2⟩
      · rintro ⟨⟨htext, htextRest⟩, w, hw, hrun⟩
        refine ⟨w.push ⟨tag.name, none⟩, ⟨htext, by rw [hw]; rfl⟩, w, closeElement_push hname, ?_⟩
        rw [ihRest hrest ((records_openRequired hw).trans hs)]
        exact ⟨htextRest, hrun⟩
    | some index =>
      -- the element's forest is text, and collected
      have hopen : ∀ text, ScanState.appendRequiredText
          { s.push ⟨tag.name, some index⟩ with seen := Function.update s.seen index true } text
          = ScanState.push { s with
              fields := Function.update s.fields index (s.fields index ++ text)
              seen := Function.update s.seen index true } ⟨tag.name, some index⟩ := fun _ => rfl
      simp only [Option.toList_some, List.map_cons, List.map_nil, List.cons_append,
        List.nil_append, records_cons, record_some, Option.isSome_some, true_imp_iff]
      constructor
      · rintro ⟨_, ⟨hseen, rfl⟩, u, hu, v, hclose, hrun⟩
        obtain ⟨htext, rfl⟩ := (acts_textOnly rfl).mp hu
        rw [hopen] at hclose
        obtain ⟨hnone, hfields⟩ := required_textOnly htext
        obtain rfl := Except.ok.inj ((closeElement_push hname).symm.trans hclose)
        obtain ⟨htextRest, hrecords⟩ := (ihRest hrest (by exact hs)).mp hrun
        refine ⟨⟨htext, hfields, htextRest⟩, _, ⟨hseen, rfl⟩, ?_⟩
        rw [hnone, List.nil_append]
        exact hrecords
      · rintro ⟨⟨htext, -, htextRest⟩, _, ⟨hseen, rfl⟩, hrun⟩
        rw [(required_textOnly htext).1, List.nil_append] at hrun
        refine ⟨_, ⟨hseen, rfl⟩, _, (acts_textOnly rfl).mpr ⟨htext, rfl⟩, _, ?_,
          (ihRest hrest (by exact hs)).mpr ⟨htextRest, hrun⟩⟩
        rw [hopen]
        exact closeElement_push hname

/-! ## The fields -/

/-- The state after recording. -/
def ScanState.recorded (s : ScanState) (items : List (Fin 5 × View)) : ScanState :=
  { s with
    fields := fun index => s.fields index ++ (items.lookup index).getD []
    seen := fun index => s.seen index || (items.lookup index).isSome }

theorem lookup_none {items : List (Fin 5 × View)} {index : Fin 5}
    (h : index ∉ items.map Prod.fst) : items.lookup index = none := by
  rw [List.lookup_eq_none_iff]
  intro field hfield
  rw [bne_iff_ne]
  rintro rfl
  exact h (List.mem_map_of_mem hfield)

theorem lookup_cons_ne {items : List (Fin 5 × View)} {field : Fin 5 × View} {index : Fin 5}
    (h : index ≠ field.1) : (field :: items).lookup index = items.lookup index := by
  rw [List.lookup_cons, beq_eq_false_iff_ne.mpr h]

theorem mem_of_lookup {items : List (Fin 5 × View)} {index : Fin 5} {text : View}
    (h : items.lookup index = some text) : (index, text) ∈ items := by
  obtain ⟨front, back, rfl, -⟩ := List.lookup_eq_some_iff.mp h
  simp

theorem lookup_of_mem {items : List (Fin 5 × View)} (hnodup : (items.map Prod.fst).Nodup)
    {field : Fin 5 × View} (h : field ∈ items) : items.lookup field.1 = some field.2 := by
  induction items with
  | nil => cases h
  | cons first items ih =>
    rw [List.map_cons, List.nodup_cons] at hnodup
    rcases List.mem_cons.mp h with rfl | h
    · exact List.lookup_cons_self
    · have hother : field.1 ≠ first.1 := fun heq => hnodup.1 (heq ▸ List.mem_map_of_mem h)
      rw [lookup_cons_ne hother, ih hnodup.2 h]

/-- The elements are recorded when each is new. -/
theorem records_iff {items : List (Fin 5 × View)} {s s' : ScanState} :
    items.foldlM record s = some s' ↔ (items.map Prod.fst).Nodup ∧
      (∀ field ∈ items, s.seen field.1 = false) ∧ s' = s.recorded items := by
  induction items generalizing s with
  | nil =>
    have hrecorded : s.recorded [] = s := by
      simp [ScanState.recorded]
    simp only [List.foldlM_nil, List.map_nil, List.nodup_nil, hrecorded, true_and]
    exact ⟨fun h => ⟨by simp, (Option.some.inj h).symm⟩, fun h => congrArg some h.2.symm⟩
  | cons field items ih =>
    obtain ⟨index, text⟩ := field
    simp only [records_cons, record_some, List.map_cons, List.nodup_cons, List.forall_mem_cons]
    -- recording the first element and then the others is recording them all
    have hall : index ∉ items.map Prod.fst → ScanState.recorded { s with
        fields := Function.update s.fields index (s.fields index ++ text)
        seen := Function.update s.seen index true } items
      = s.recorded ((index, text) :: items) := by
      intro hnew
      have hlookup := lookup_none hnew
      unfold ScanState.recorded
      congr 1
      · funext other
        by_cases hother : other = index
        · subst hother
          simp [hlookup]
        · simp [lookup_cons_ne (show other ≠ (index, text).1 from hother), hother]
      · funext other
        by_cases hother : other = index
        · subst hother
          simp
        · simp [lookup_cons_ne (show other ≠ (index, text).1 from hother), hother]
    have hseen : (∀ field ∈ items, Function.update s.seen index true field.1 = false) ↔
        index ∉ items.map Prod.fst ∧ ∀ field ∈ items, s.seen field.1 = false := by
      constructor
      · intro h
        have hnew : index ∉ items.map Prod.fst := by
          intro hmem
          obtain ⟨field, hfield, rfl⟩ := List.mem_map.mp hmem
          have := h field hfield
          rw [Function.update_self] at this
          cases this
        refine ⟨hnew, fun field hfield => ?_⟩
        have hother : field.1 ≠ index := fun heq => hnew (heq ▸ List.mem_map_of_mem hfield)
        rw [← h field hfield, Function.update_of_ne hother]
      · rintro ⟨hnew, h⟩ field hfield
        have hother : field.1 ≠ index := fun heq => hnew (heq ▸ List.mem_map_of_mem hfield)
        rw [Function.update_of_ne hother, h field hfield]
    constructor
    · rintro ⟨_, ⟨hfirst, rfl⟩, hrun⟩
      obtain ⟨hnodup, hrest, rfl⟩ := ih.mp hrun
      obtain ⟨hnew, hrest⟩ := hseen.mp hrest
      exact ⟨⟨hnew, hnodup⟩, ⟨hfirst, hrest⟩, hall hnew⟩
    · rintro ⟨⟨hnew, hnodup⟩, ⟨hfirst, hrest⟩, rfl⟩
      refine ⟨_, ⟨hfirst, rfl⟩, ih.mpr ⟨hnodup, hseen.mpr ⟨hnew, hrest⟩, (hall hnew).symm⟩⟩

/-- What the check of one field asks for. -/
def FieldOk (items : List (Fin 5 × View)) (index : Fin 5) : Prop :=
  match items.lookup index with
  | some text => 1 ≤ (trimAsciiWhitespace text).length ∧ (trimAsciiWhitespace text).length ≤ 128
  | none => index.val = 0

/-- What it answers. -/
def fieldText (items : List (Fin 5 × View)) (index : Fin 5) : View :=
  match items.lookup index with
  | some text => trimAsciiWhitespace text
  | none => ascii "ATI Net F/T"

theorem finishField_recorded {items : List (Fin 5 × View)} {index : Fin 5} {text : View} :
    finishField (ScanState.recorded {} items) index = .ok text ↔
      FieldOk items index ∧ text = fieldText items index := by
  have hok : ∀ a b : View, (.ok a : Except Exception View) = .ok b ↔ b = a :=
    fun a b => ⟨fun h => (Except.ok.inj h).symm, fun h => h ▸ rfl⟩
  unfold finishField FieldOk fieldText ScanState.recorded
  cases hlookup : items.lookup index with
  | none =>
    by_cases hzero : index = 0
    · simp only [hzero] at hlookup
      simp [hlookup, hzero, hok]
    · simp [hlookup, hzero]
  | some content =>
    simp only [hlookup, Bool.false_or, Option.isSome_some, Bool.true_eq_false, if_false,
      Option.getD_some, List.nil_append, maximumFieldLength]
    generalize trimAsciiWhitespace content = value
    by_cases hempty : value = []
    · simp [hempty]
    · have hpos : 1 ≤ value.length := List.length_pos_iff.mpr hempty
      by_cases hlong : 128 < value.length
      · simp [hempty, hlong]
      · simp [hempty, hlong, Nat.not_lt.mp hlong, hpos, hok]

/-- A check of every entry of a list, and its answers. -/
theorem mapM_ok_iff {α β : Type} {f : α → Except Exception β} {P : α → Prop} {g : α → β}
    (h : ∀ a b, f a = .ok b ↔ P a ∧ b = g a) (l : List α) (bs : List β) :
    l.mapM f = .ok bs ↔ (∀ a ∈ l, P a) ∧ bs = l.map g := by
  induction l generalizing bs with
  | nil => simp [pure, Except.pure, eq_comm]
  | cons a l ih =>
    rw [List.mapM_cons, List.forall_mem_cons, List.map_cons]
    constructor
    · intro hrun
      obtain ⟨b, hb, hrun⟩ := bind_ok hrun
      obtain ⟨rest, hrest, hrun⟩ := bind_ok hrun
      obtain ⟨hP, rfl⟩ := (h a b).mp hb
      obtain ⟨hall, rfl⟩ := (ih rest).mp hrest
      exact ⟨⟨hP, hall⟩, (Except.ok.inj hrun).symm⟩
    · rintro ⟨⟨hP, hall⟩, rfl⟩
      rw [(h a (g a)).mpr ⟨hP, rfl⟩, (ih _).mpr ⟨hall, rfl⟩]
      rfl

/-- The checks of all fields, in the words of the reference. -/
theorem fieldOk_iff {items : List (Fin 5 × View)} (hnodup : (items.map Prod.fst).Nodup) :
    (∀ index ∈ List.finRange 5, FieldOk items index) ↔
      (∀ index, index ≠ 0 → index ∈ items.map Prod.fst) ∧
        ∀ field ∈ items, 1 ≤ (trimAsciiWhitespace field.2).length ∧
          (trimAsciiWhitespace field.2).length ≤ 128 := by
  constructor
  · intro h
    constructor
    · intro index hindex
      by_contra hmissing
      have hfield := h index (List.mem_finRange index)
      rw [FieldOk, lookup_none hmissing] at hfield
      exact hindex (Fin.ext hfield)
    · intro field hfield
      have hok := h field.1 (List.mem_finRange field.1)
      rw [FieldOk, lookup_of_mem hnodup hfield] at hok
      exact hok
  · rintro ⟨hpresent, hcontents⟩ index -
    unfold FieldOk
    cases hlookup : items.lookup index with
    | none =>
      by_contra hindex
      obtain ⟨field, hfield, rfl⟩ := List.mem_map.mp
        (hpresent index fun heq => hindex (congrArg Fin.val heq))
      rw [lookup_of_mem hnodup hfield] at hlookup
      cases hlookup
    | some text => exact hcontents (index, text) (mem_of_lookup hlookup)

/-! ## The agreement -/

/-- **The scanner agrees with the reference on every byte string**: it
returns exactly when the bytes are an accepted document, and then the
five contents that the document says. -/
theorem extractRequiredFields_agrees (xml : View) (fields : List View) :
    extractRequiredFields xml = .ok fields ↔
      ∃ document : Document, document.Ok ∧ document.render = xml ∧ fields = document.fields := by
  constructor
  · intro h
    obtain ⟨s, hloop, h⟩ := bind_ok h
    split at h
    · cases h
    rename_i helements
    obtain ⟨tokens, hok, htokens⟩ := exists_tokens_of_scan (Nat.zero_le _) (by simp) hloop
    rw [scanLoop_tokens hok (Nat.zero_le _) (by simp) htokens.symm] at hloop
    obtain ⟨u, hacts, rfl⟩ := map_ok hloop
    have hempty : u.elements = [] := not_not.mp helements
    obtain ⟨document, hmatched, rfl⟩ := forest_of_acts rfl hempty hacts
    obtain ⟨htext, hrecords⟩ := (acts_forest hmatched rfl).mp hacts
    obtain ⟨hnodup, -, rfl⟩ := records_iff.mp hrecords
    obtain ⟨hfields, rfl⟩ := (mapM_ok_iff (fun _ _ => finishField_recorded) _ _).mp h
    obtain ⟨hpresent, hcontents⟩ := (fieldOk_iff hnodup).mp hfields
    exact ⟨document, ⟨hok, hmatched, htext, hnodup, hpresent, hcontents⟩, htokens, rfl⟩
  · rintro ⟨document, hdocument, rfl, rfl⟩
    have hacts : document.flatten.foldlM act {}
        = .ok (ScanState.recorded {} document.required) :=
      (acts_forest hdocument.nested rfl).mpr
        ⟨hdocument.fieldsText, records_iff.mpr ⟨hdocument.once, fun _ _ => rfl, rfl⟩⟩
    have hloop : scanLoop document.render document.render.length {}
        = .ok ((ScanState.recorded {} document.required).moved document.render.length) := by
      rw [scanLoop_tokens hdocument.tokens (Nat.zero_le _) (by simp) rfl, hacts]
      rfl
    have hfields : (List.finRange 5).mapM (finishField (ScanState.recorded {} document.required))
        = .ok document.fields :=
      (mapM_ok_iff (fun _ _ => finishField_recorded) _ _).mpr
        ⟨(fieldOk_iff hdocument.once).mpr ⟨hdocument.present, hdocument.contents⟩, rfl⟩
    unfold extractRequiredFields
    rw [hloop]
    exact hfields

end PyNetFT.Core
