/-
PyNetFT.Core.XmlLexing — the scanner reads tokens.

The loop of `extract_required_fields` works on positions and takes the
character data up to the next `<` and one piece of markup in one turn.
Here it is taken apart: `act` is what one token does to the scanner's
locals, `scanLoop_tokens` says that the loop over the rendering of a list
of tokens is the list's `act`s one after the other, and
`exists_tokens_of_scan` that whatever the loop gets through without an
exception is the rendering of a list of tokens.
-/
import PyNetFT.Core.XmlConfigTheorems
import PyNetFT.Core.XmlGrammar
import Mathlib.Data.List.TakeWhile

namespace PyNetFT.Core

open PyNetFT.Lib

/-! ## Trimming -/

/-- Something that does not begin or end with whitespace. -/
structure Trimmed (bytes : View) : Prop where
  nonempty : bytes ≠ []
  head : ∀ c ∈ bytes.head?, isAsciiWhitespace c = false
  last : ∀ c ∈ bytes.getLast?, isAsciiWhitespace c = false

theorem blank_nil : Blank [] := fun _ hc => (by cases hc)

theorem Blank.reverse {bytes : View} (h : Blank bytes) : Blank bytes.reverse :=
  fun c hc => h c (List.mem_reverse.mp hc)

theorem blank_takeWhile (bytes : View) : Blank (bytes.takeWhile isAsciiWhitespace) :=
  fun _ hc => List.mem_takeWhile_imp hc

theorem head?_dropWhile {bytes : View} {c : UInt8}
    (h : c ∈ (bytes.dropWhile isAsciiWhitespace).head?) : isAsciiWhitespace c = false := by
  induction bytes with
  | nil => cases h
  | cons d bytes ih =>
    by_cases hd : isAsciiWhitespace d = true
    · rw [List.dropWhile_cons_of_pos hd] at h
      exact ih h
    · rw [List.dropWhile_cons_of_neg hd, List.head?_cons, Option.mem_some_iff] at h
      exact h ▸ Bool.eq_false_iff.mpr hd

/-- Whitespace in front is dropped. -/
theorem dropWhile_blank {lead core : View} (hlead : Blank lead)
    (hcore : ∀ c ∈ core.head?, isAsciiWhitespace c = false) :
    (lead ++ core).dropWhile isAsciiWhitespace = core := by
  rw [List.dropWhile_append_of_pos hlead]
  cases core with
  | nil => rfl
  | cons c core =>
    rw [List.dropWhile_cons_of_neg]
    rw [hcore c rfl]
    simp

theorem trim_eq {lead core trail : View} (hlead : Blank lead) (hcore : Trimmed core)
    (htrail : Blank trail) : trimAsciiWhitespace (lead ++ (core ++ trail)) = core := by
  unfold trimAsciiWhitespace
  have hhead : ∀ c ∈ (core ++ trail).head?, isAsciiWhitespace c = false := by
    rw [List.head?_append_of_ne_nil _ hcore.nonempty]
    exact hcore.head
  rw [dropWhile_blank hlead hhead, List.reverse_append, dropWhile_blank htrail.reverse]
  · exact List.reverse_reverse core
  · rw [List.head?_reverse]
    exact hcore.last

/-- What is left of a view between its whitespace. -/
theorem trim_cases (view : View) (h : trimAsciiWhitespace view ≠ []) :
    ∃ lead trail, view = lead ++ (trimAsciiWhitespace view ++ trail) ∧ Blank lead ∧ Blank trail ∧
      Trimmed (trimAsciiWhitespace view) := by
  have hview := List.takeWhile_append_dropWhile (p := isAsciiWhitespace) (l := view)
  generalize hd : view.dropWhile isAsciiWhitespace = back at hview
  have hback := List.takeWhile_append_dropWhile (p := isAsciiWhitespace) (l := back.reverse)
  have htrim : trimAsciiWhitespace view = (back.reverse.dropWhile isAsciiWhitespace).reverse := by
    rw [trimAsciiWhitespace, hd]
  have hsplit : back = trimAsciiWhitespace view ++
      (back.reverse.takeWhile isAsciiWhitespace).reverse := by
    rw [htrim, ← List.reverse_append, hback, List.reverse_reverse]
  refine ⟨view.takeWhile isAsciiWhitespace, (back.reverse.takeWhile isAsciiWhitespace).reverse,
    ?_, blank_takeWhile _, (blank_takeWhile _).reverse, h, ?_, ?_⟩
  · rw [← hsplit, hview]
  · intro c hc
    have hhead : c ∈ (view.dropWhile isAsciiWhitespace).head? → isAsciiWhitespace c = false :=
      head?_dropWhile
    refine hhead ?_
    rw [hd, hsplit, List.head?_append_of_ne_nil _ h]
    exact hc
  · rw [htrim, List.getLast?_reverse]
    exact fun c hc => head?_dropWhile hc

/-- A trimmed view and whitespace behind it, in one way only. -/
theorem trimmed_unique {a b trail trail' : View} (ha : Trimmed a) (hb : Trimmed b)
    (htrail : Blank trail) (htrail' : Blank trail') (h : a ++ trail = b ++ trail') : a = b := by
  have hleft := trim_eq blank_nil ha htrail
  have hright := trim_eq blank_nil hb htrail'
  rw [List.nil_append] at hleft hright
  rw [← hleft, h, hright]

/-- `substr(0, find_first_of(whitespace))`. -/
theorem take_findIdx? (view : View) :
    view.take ((view.findIdx? isAsciiWhitespace).getD view.length)
      = view.takeWhile fun c => !isAsciiWhitespace c := by
  induction view with
  | nil => rfl
  | cons c view ih =>
    rw [List.findIdx?_cons]
    by_cases hc : isAsciiWhitespace c = true
    · simp [hc]
    · simp only [hc, Bool.false_eq_true, if_false, Bool.not_false, List.takeWhile_cons_of_pos,
        List.length_cons]
      rw [← ih]
      cases view.findIdx? isAsciiWhitespace <;> simp

theorem StartName.takeWhile {name rest : View} (h : StartName name rest) :
    (name ++ rest).takeWhile (fun c => !isAsciiWhitespace c) = name := by
  have hname : ∀ c ∈ name, (!isAsciiWhitespace c) = true := by
    intro c hc
    rw [h.solid c hc]
    rfl
  rw [List.takeWhile_append_of_pos hname]
  cases hrest : rest with
  | nil => simp
  | cons c tail =>
    have hc := h.rest c (by rw [hrest]; rfl)
    rw [List.takeWhile_cons_of_neg (by simp [hc]), List.append_nil]

/-! ## Searching -/

/-- A delimiter is found at the end of a section it does not occur in. -/
theorem findAux_section {delimiter body : View} (hne : delimiter ≠ [])
    (h : ¬ delimiter <:+: (body ++ delimiter).dropLast) (rest : View) (i : Nat) :
    findAux delimiter (body ++ (delimiter ++ rest)) i = some (i + body.length) := by
  induction body generalizing i with
  | nil =>
    cases hd : delimiter with
    | nil => exact absurd hd hne
    | cons c front =>
      simp only [List.nil_append, List.cons_append, findAux, List.length_nil, Nat.add_zero]
      rw [if_pos]
      simp
  | cons c body ih =>
    simp only [List.cons_append, findAux]
    have hlen : 0 < delimiter.length := List.length_pos_iff.mpr hne
    have hlast : (c :: body ++ delimiter).dropLast = c :: (body ++ delimiter).dropLast := by
      rw [List.cons_append, List.dropLast_cons_of_ne_nil]
      simp [hne]
    rw [hlast] at h
    rw [if_neg, ih (fun hin => h (hin.trans (List.suffix_cons _ _).isInfix)), List.length_cons]
    · congr 1
      omega
    · -- a match here would lie in front of the end
      intro hmatch
      refine h (List.IsPrefix.isInfix ?_)
      have hprefix := List.take_prefix delimiter.length (c :: (body ++ delimiter).dropLast)
      have htake : (c :: (body ++ (delimiter ++ rest))).take delimiter.length
          = (c :: (body ++ delimiter).dropLast).take delimiter.length := by
        rw [← hlast, List.dropLast_eq_take, List.take_take]
        have hle : delimiter.length ≤ (c :: body ++ delimiter).length - 1 := by
          simp only [List.cons_append, List.length_cons, List.length_append]
          omega
        rw [Nat.min_eq_left hle]
        have happend : c :: (body ++ (delimiter ++ rest)) = (c :: body ++ delimiter) ++ rest := by
          simp
        rw [happend, List.take_append_of_le_length]
        simp only [List.cons_append, List.length_cons, List.length_append]
        omega
      rw [← htake, hmatch] at hprefix
      exact hprefix

/-- What `find` returns is the first occurrence. -/
theorem findAux_some {delimiter view : View} {i found : Nat} (hne : delimiter ≠ [])
    (h : findAux delimiter view i = some found) :
    ∃ body rest, view = body ++ (delimiter ++ rest) ∧ found = i + body.length ∧
      ¬ delimiter <:+: body := by
  induction view generalizing i with
  | nil =>
    simp only [findAux] at h
    rw [if_neg hne] at h
    cases h
  | cons c view ih =>
    simp only [findAux] at h
    split at h
    · rename_i hmatch
      cases h
      refine ⟨[], (c :: view).drop delimiter.length, ?_, rfl, ?_⟩
      · calc c :: view = (c :: view).take delimiter.length ++ (c :: view).drop delimiter.length :=
              (List.take_append_drop _ _).symm
          _ = delimiter ++ (c :: view).drop delimiter.length := by rw [hmatch]
      · intro hin
        exact hne (List.infix_nil.mp hin)
    · rename_i hmiss
      obtain ⟨body, rest, rfl, rfl, hbody⟩ := ih h
      refine ⟨c :: body, rest, rfl, by simp only [List.length_cons]; omega, ?_⟩
      intro hin
      rcases List.infix_cons_iff.mp hin with hpre | hin
      · refine hmiss ?_
        have hpre' : delimiter <+: c :: (body ++ (delimiter ++ rest)) :=
          hpre.trans (List.prefix_append (c :: body) _)
        exact (List.prefix_iff_eq_take.mp hpre').symm
      · exact hbody hin

/-- A delimiter whose last byte occurs nowhere else in it: to be absent
from a section is to be absent up to its end. -/
theorem not_infix_dropLast {front body : View} {z : UInt8} (hz : z ∉ front)
    (h : ¬ front ++ [z] <:+: body) :
    ¬ front ++ [z] <:+: (body ++ (front ++ [z])).dropLast := by
  rw [← List.append_assoc, List.dropLast_concat]
  rintro ⟨before, after, heq⟩
  have hplace : (before ++ front) ++ z :: after = body ++ front := by
    rw [← heq]
    simp
  rcases List.append_eq_append_iff.mp hplace with ⟨mid, hbody, hmid⟩ | ⟨mid, -, hfront⟩
  · cases mid with
    | nil => exact hz (show z ∈ [] ++ front from hmid ▸ List.mem_cons_self)
    | cons c mid =>
      obtain ⟨rfl, -⟩ := List.cons.inj hmid
      refine h ⟨before, mid, ?_⟩
      rw [hbody]
      simp
  · refine hz ?_
    rw [hfront]
    simp

/-- The delimiters of the three sections. -/
theorem find_commentEnd {body : View} (h : ¬ ascii "-->" <:+: body) (rest : View) (i : Nat) :
    findAux (ascii "-->") (body ++ (ascii "-->" ++ rest)) i = some (i + body.length) :=
  findAux_section (by decide)
    (not_infix_dropLast (show (0x3e : UInt8) ∉ ascii "--" by decide) h) rest i

theorem find_cdataEnd {body : View} (h : ¬ ascii "]]>" <:+: body) (rest : View) (i : Nat) :
    findAux (ascii "]]>") (body ++ (ascii "]]>" ++ rest)) i = some (i + body.length) :=
  findAux_section (by decide)
    (not_infix_dropLast (show (0x3e : UInt8) ∉ ascii "]]" by decide) h) rest i

theorem find_instructionEnd {body : View} (h : ¬ ascii "?>" <:+: body) (rest : View) (i : Nat) :
    findAux (ascii "?>") (body ++ (ascii "?>" ++ rest)) i = some (i + body.length) :=
  findAux_section (by decide)
    (not_infix_dropLast (show (0x3e : UInt8) ∉ ascii "?" by decide) h) rest i

theorem ascii_lt : ascii "<" = [0x3c] := rfl

/-- Character data is passed over. -/
theorem findAux_text {bytes : View} (h : 0x3c ∉ bytes) (rest : View) (i : Nat) :
    findAux (ascii "<") (bytes ++ rest) i = findAux (ascii "<") rest (i + bytes.length) := by
  induction bytes generalizing i with
  | nil => rfl
  | cons c bytes ih =>
    rw [List.mem_cons, not_or] at h
    simp only [List.cons_append, findAux]
    rw [if_neg, ih h.2, List.length_cons]
    · congr 1
      omega
    · rw [ascii_lt]
      simp [Ne.symm h.1]

theorem not_mem_of_findAux {view : View} {i : Nat} (h : findAux (ascii "<") view i = none) :
    0x3c ∉ view := by
  induction view generalizing i with
  | nil => simp
  | cons c view ih =>
    simp only [findAux] at h
    split at h
    · cases h
    · rename_i hmiss
      rw [ascii_lt] at hmiss
      rw [List.mem_cons, not_or]
      exact ⟨fun hc => hmiss (by rw [← hc]; rfl), ih h⟩

theorem findAux_lt (rest : View) (i : Nat) :
    findAux (ascii "<") (0x3c :: rest) i = some i := by
  simp only [findAux]
  rw [if_pos]
  rw [ascii_lt]
  rfl

/-! ## The end of a tag -/

theorem findTagEndAux_inside {q : UInt8} {body : View} (h : q ∉ body) (rest : View) (i : Nat) :
    findTagEndAux (some q) (body ++ q :: rest) i
      = findTagEndAux none rest (i + body.length + 1) := by
  induction body generalizing i with
  | nil => simp [findTagEndAux]
  | cons c body ih =>
    rw [List.mem_cons, not_or] at h
    simp only [List.cons_append, findTagEndAux]
    rw [if_neg (Ne.symm h.1), ih h.2, List.length_cons]
    congr 1
    omega

/-- The `>` behind the text of a tag ends it. -/
theorem findTagEndAux_quoted {inner : View} (h : Quoted inner) (rest : View) (i : Nat) :
    findTagEndAux none (inner ++ 0x3e :: rest) i = some (i + inner.length) := by
  induction h generalizing i with
  | nil => simp [findTagEndAux]
  | plain quote bracket _ ih =>
    simp only [List.cons_append, findTagEndAux]
    rw [if_neg quote, if_neg bracket, ih, List.length_cons]
    congr 1
    omega
  | @quoted q body tail quote inside _ ih =>
    simp only [List.cons_append, List.append_assoc, findTagEndAux]
    rw [if_pos quote, findTagEndAux_inside inside, ih]
    simp only [List.length_cons, List.length_append]
    congr 1
    omega

/-- What `find_tag_end` has passed over. -/
theorem findTagEndAux_some {quote : Option UInt8} {view : View} {i found : Nat}
    (hquote : ∀ q ∈ quote, q = 0x27 ∨ q = 0x22)
    (h : findTagEndAux quote view i = some found) :
    ∃ inner rest, view = inner ++ 0x3e :: rest ∧ found = i + inner.length ∧
      match quote with
      | none => Quoted inner
      | some q => ∃ body tail, inner = body ++ q :: tail ∧ q ∉ body ∧ Quoted tail := by
  have hnone : ∀ q ∈ (none : Option UInt8), q = 0x27 ∨ q = 0x22 := by simp
  induction view generalizing quote i with
  | nil => cases quote <;> cases h
  | cons c view ih =>
    cases quote with
    | some q =>
      simp only [findTagEndAux] at h
      by_cases hc : c = q
      · rw [if_pos hc] at h
        obtain ⟨inner, rest, rfl, rfl, hinner⟩ := ih hnone h
        refine ⟨c :: inner, rest, rfl, by simp only [List.length_cons]; omega, [], inner, ?_, ?_,
          hinner⟩
        · rw [hc]
          rfl
        · simp
      · rw [if_neg hc] at h
        obtain ⟨inner, rest, rfl, rfl, body, tail, rfl, hbody, htail⟩ :=
          ih hquote h
        refine ⟨c :: (body ++ q :: tail), rest, rfl, by simp only [List.length_cons]; omega,
          c :: body, tail, rfl, ?_, htail⟩
        rw [List.mem_cons, not_or]
        exact ⟨Ne.symm hc, hbody⟩
    | none =>
      simp only [findTagEndAux] at h
      by_cases hq : c = 0x27 ∨ c = 0x22
      · rw [if_pos hq] at h
        obtain ⟨inner, rest, rfl, rfl, body, tail, rfl, hbody, htail⟩ :=
          ih (fun q hq' => Option.some.inj hq' ▸ hq) h
        refine ⟨c :: (body ++ c :: tail), rest, rfl, by simp only [List.length_cons]; omega, ?_⟩
        exact .quoted hq hbody htail
      · rw [if_neg hq] at h
        by_cases hend : c = 0x3e
        · rw [if_pos hend] at h
          cases h
          exact ⟨[], view, by rw [hend]; rfl, rfl, .nil⟩
        · rw [if_neg hend] at h
          obtain ⟨inner, rest, rfl, rfl, hinner⟩ := ih hnone h
          exact ⟨c :: inner, rest, rfl, by simp only [List.length_cons]; omega,
            .plain hq hend hinner⟩

/-! ## Tags -/

def ScanState.moved (s : ScanState) (position : Nat) : ScanState := { s with position := position }

/-- The part of `scanMarkup` behind `find_tag_end`. -/
def scanTag (s : ScanState) (inner : View) (tagEnd : Nat) : Except Exception ScanState :=
  let tag := trimAsciiWhitespace inner
  if tag = [] then .error (.discovery "sensor configuration contains malformed markup")
  else if tag.head? = some 0x2f then scanEndTag s tag tagEnd
  else scanStartTag s tag tagEnd

/-- What an end tag does. -/
def closeElement (s : ScanState) (name : View) : Except Exception ScanState :=
  match s.elements with
  | top :: rest =>
      if top.name = name then .ok { s with elements := rest }
      else .error (.discovery "sensor configuration contains malformed element nesting")
  | [] => .error (.discovery "sensor configuration contains malformed element nesting")

theorem StartName.name_head {name rest : View} (h : StartName name rest) :
    ∃ c tail, name = c :: tail ∧ isAsciiWhitespace c = false ∧ c ≠ 0x2f := by
  cases hname : name with
  | nil => exact absurd hname h.nonempty
  | cons c tail =>
    refine ⟨c, tail, rfl, h.solid c (by rw [hname]; exact List.mem_cons_self), ?_⟩
    have hslash := h.noSlash
    rw [hname] at hslash
    simpa using hslash

/-- The name of a start tag, and what is left of the tag when whitespace
at its end is dropped. -/
theorem StartName.trim {name rest : View} (h : StartName name rest) :
    ∃ rest' trail, rest = rest' ++ trail ∧ Blank trail ∧ Trimmed (name ++ rest') ∧
      StartName name rest' := by
  obtain ⟨c, tail, hname, hc, -⟩ := h.name_head
  have hsolid : isAsciiWhitespace c = false → trimAsciiWhitespace (name ++ rest) ≠ [] := by
    intro _ hempty
    -- the first byte of the name stays
    have hdrop : (name ++ rest).dropWhile isAsciiWhitespace = name ++ rest := by
      rw [hname, List.cons_append, List.dropWhile_cons_of_neg (by simp [hc])]
    unfold trimAsciiWhitespace at hempty
    rw [hdrop, List.reverse_eq_nil_iff, List.dropWhile_eq_nil_iff] at hempty
    have hall := hempty c (by rw [hname]; simp)
    rw [hc] at hall
    cases hall
  obtain ⟨lead, trail, hsplit, hlead, htrail, htrimmed⟩ := trim_cases _ (hsolid hc)
  generalize trimAsciiWhitespace (name ++ rest) = core at hsplit htrimmed
  have hnolead : lead = [] := by
    cases lead with
    | nil => rfl
    | cons d lead =>
      rw [hname, List.cons_append, List.cons_append] at hsplit
      obtain ⟨rfl, -⟩ := List.cons.inj hsplit
      rw [hlead c List.mem_cons_self] at hc
      cases hc
  rw [hnolead, List.nil_append] at hsplit
  rcases List.append_eq_append_iff.mp hsplit with ⟨rest', hcore, hrest⟩ | ⟨mid, hmid, htrail'⟩
  · refine ⟨rest', trail, hrest, htrail, hcore ▸ htrimmed, h.nonempty, h.solid, h.noSlash, ?_⟩
    intro d hd
    refine h.rest d ?_
    rw [hrest]
    cases rest' with
    | nil => cases hd
    | cons e rest' => exact hd
  · -- the whitespace cannot reach into the name
    cases mid with
    | nil =>
      refine ⟨[], trail, ?_, htrail, ?_, h.nonempty, h.solid, h.noSlash, fun d hd => (by cases hd)⟩
      · rw [htrail']
        rfl
      · rw [hmid, List.append_nil, List.append_nil]
        exact htrimmed
    | cons d mid =>
      have hblank := htrail d (by rw [htrail']; exact List.mem_cons_self)
      rw [h.solid d (by rw [hmid]; simp)] at hblank
      cases hblank

/-- The name the scanner finds. -/
theorem scanStartTag_named {name rest : View} (h : StartName name rest) (s : ScanState)
    (tagEnd : Nat) :
    ((name ++ rest).getLast? ≠ some 0x2f →
      scanStartTag s (name ++ rest) tagEnd = openElement s name false tagEnd) ∧
    ∀ rest', trimAsciiWhitespace (name ++ rest') = name ++ rest →
      scanStartTag s (name ++ rest' ++ [0x2f]) tagEnd = openElement s name true tagEnd := by
  have hfront : ¬ (name = [] ∨ name.head? = some 0x2f) := by
    rw [not_or]
    exact ⟨h.nonempty, h.noSlash⟩
  have hname : (name ++ rest).take
      (((name ++ rest).findIdx? isAsciiWhitespace).getD (name ++ rest).length) = name := by
    rw [take_findIdx?, h.takeWhile]
  constructor
  · intro hlast
    simp only [scanStartTag, splitSelfClosing, if_neg hlast, substr_ok (Nat.zero_le _),
      List.drop_zero, Except.bind, bind, hname, if_neg hfront]
  · intro rest' htrim
    have hlast : (name ++ rest' ++ [0x2f]).getLast? = some 0x2f := List.getLast?_concat
    have htake : (name ++ rest' ++ [0x2f]).take ((name ++ rest' ++ [0x2f]).length - 1)
        = name ++ rest' := by
      rw [← List.dropLast_eq_take, List.dropLast_concat]
    simp only [scanStartTag, splitSelfClosing, if_pos hlast, substr_ok (Nat.zero_le _),
      List.drop_zero, Except.bind, bind, pure, Except.pure, htake, htrim, hname, if_neg hfront]

theorem scanTag_start {tag : StartTag} (h : tag.Ok) (s : ScanState) (tagEnd : Nat) :
    scanTag s tag.inner tagEnd = openElement s tag.name false tagEnd := by
  obtain ⟨rest', trail, hrest, htrail, htrimmed, hname⟩ := h.name.trim
  obtain ⟨c, tail, hhead, -, hslash⟩ := h.name.name_head
  have htrim : trimAsciiWhitespace tag.inner = tag.name ++ rest' := by
    rw [StartTag.inner, hrest, ← List.append_assoc tag.name]
    exact trim_eq h.lead htrimmed htrail
  simp only [scanTag, htrim]
  rw [if_neg htrimmed.nonempty, if_neg]
  · refine (scanStartTag_named hname s tagEnd).1 ?_
    intro hlast
    obtain ⟨front, hfront⟩ := List.getLast?_eq_some_iff.mp hlast
    refine h.stays front trail ?_ htrail
    rw [hrest, ← List.append_assoc, hfront]
    simp
  · rw [hhead]
    simpa using hslash

theorem scanTag_empty {tag : EmptyTag} (h : tag.Ok) (s : ScanState) (tagEnd : Nat) :
    scanTag s tag.inner tagEnd = openElement s tag.name true tagEnd := by
  obtain ⟨rest', trail, hrest, htrail, htrimmed, hname⟩ := h.name.trim
  obtain ⟨c, tail, hhead, hsolid, hslash⟩ := h.name.name_head
  have hcore : Trimmed (tag.name ++ tag.rest ++ [0x2f]) := by
    refine ⟨by simp, ?_, ?_⟩
    · intro d hd
      rw [hhead] at hd
      obtain rfl : c = d := by simpa using hd
      exact hsolid
    · intro d hd
      obtain rfl : (0x2f : UInt8) = d := by simpa using hd
      decide
  have htrim : trimAsciiWhitespace tag.inner = tag.name ++ tag.rest ++ [0x2f] := by
    have hinner : tag.inner = tag.lead ++ ((tag.name ++ tag.rest ++ [0x2f]) ++ tag.gap) := by
      simp [EmptyTag.inner]
    rw [hinner]
    exact trim_eq h.lead hcore h.gap
  simp only [scanTag, htrim]
  rw [if_neg hcore.nonempty, if_neg]
  · refine (scanStartTag_named hname s tagEnd).2 tag.rest ?_
    rw [hrest, ← List.append_assoc]
    exact trim_eq blank_nil htrimmed htrail
  · rw [hhead]
    simpa using hslash

theorem scanTag_end {tag : EndTag} (h : tag.Ok) (s : ScanState) (tagEnd : Nat) :
    scanTag s tag.inner tagEnd = (closeElement s tag.name).map (·.moved (tagEnd + 1)) := by
  have hname : Trimmed tag.name := by
    refine ⟨h.nonempty, ?_, ?_⟩
    · exact fun c hc => (h.solid c (List.mem_of_head? hc)).1
    · exact fun c hc => (h.solid c (List.mem_of_getLast? hc)).1
  have hcore : Trimmed (0x2f :: (tag.gap ++ tag.name)) := by
    refine ⟨by simp, ?_, ?_⟩
    · intro d hd
      obtain rfl : (0x2f : UInt8) = d := by simpa using hd
      decide
    · intro d hd
      rw [← List.cons_append, List.getLast?_append_of_ne_nil _ h.nonempty] at hd
      exact hname.last d hd
  have htrim : trimAsciiWhitespace tag.inner = 0x2f :: (tag.gap ++ tag.name) := by
    have hinner : tag.inner = tag.lead ++ (0x2f :: (tag.gap ++ tag.name) ++ tag.tail) := by
      simp [EndTag.inner]
    rw [hinner]
    exact trim_eq h.lead hcore h.tail
  have hrest : trimAsciiWhitespace (tag.gap ++ tag.name) = tag.name := by
    have htrim' := trim_eq h.gap hname blank_nil
    rwa [List.append_nil] at htrim'
  have hany : (tag.name.any fun c => isAsciiWhitespace c || c = 0x2f) = false := by
    rw [List.any_eq_false]
    intro c hc
    obtain ⟨hblank, hslash⟩ := h.solid c hc
    simp [hblank, hslash]
  have hsub : substr (0x2f :: (tag.gap ++ tag.name)) 1 (0x2f :: (tag.gap ++ tag.name)).length
      = .ok (tag.gap ++ tag.name) := by
    rw [substr_ok (by simp)]
    simp
  simp only [scanTag, htrim]
  rw [if_neg hcore.nonempty, if_pos (List.head?_cons)]
  simp only [scanEndTag, hsub, bind, Except.bind, hrest, hany]
  unfold closeElement
  cases hel : s.elements with
  | nil => rfl
  | cons top rest =>
    by_cases htop : top.name = tag.name
    · simp [htop, h.nonempty, Except.map, pure, Except.pure, ScanState.moved]
    · simp [htop, Except.map, throw, throwThe, MonadExceptOf.throw]

/-- The name at the front of a tag that begins with no slash. -/
theorem startName_of_head {tag : View} (hne : tag ≠ [])
    (hhead : ∀ c ∈ tag.head?, isAsciiWhitespace c = false) (hslash : tag.head? ≠ some 0x2f)
    {trail : View} (htrail : Blank trail) :
    ∃ name rest, tag = name ++ rest ∧ StartName name (rest ++ trail) := by
  refine ⟨tag.takeWhile (fun c => !isAsciiWhitespace c),
    tag.dropWhile (fun c => !isAsciiWhitespace c), (List.takeWhile_append_dropWhile).symm, ?_⟩
  obtain ⟨c, tail, rfl⟩ := List.exists_cons_of_ne_nil hne
  have hc : isAsciiWhitespace c = false := hhead c rfl
  have hfirst : (c :: tail).takeWhile (fun c => !isAsciiWhitespace c)
      = c :: tail.takeWhile (fun c => !isAsciiWhitespace c) :=
    List.takeWhile_cons_of_pos (by simp [hc])
  refine ⟨by rw [hfirst]; simp, ?_, by rw [hfirst]; simpa using hslash, ?_⟩
  · intro d hd
    simpa using List.mem_takeWhile_imp hd
  · intro d hd
    cases hrest : (c :: tail).dropWhile (fun c => !isAsciiWhitespace c) with
    | nil =>
      rw [hrest, List.nil_append] at hd
      exact htrail d (List.mem_of_head? hd)
    | cons e rest =>
      have hnot := List.head?_dropWhile_not (fun c => !isAsciiWhitespace c) (c :: tail)
      rw [hrest] at hd hnot
      obtain rfl : e = d := by simpa using hd
      simpa using hnot

/-- A tag the scanner accepts is a start tag, a self-closing tag or an end
tag. -/
theorem token_of_scanTag {s s' : ScanState} {inner : View} {tagEnd : Nat} (htext : TagText inner)
    (h : scanTag s inner tagEnd = .ok s') :
    ∃ token : Token, Token.Ok token ∧ Token.render token = angle inner := by
  simp only [scanTag] at h
  split at h
  · cases h
  rename_i hne
  obtain ⟨lead, trail, hinner, hlead, htrail, htrimmed⟩ := trim_cases inner hne
  generalize trimAsciiWhitespace inner = tag at h hne hinner htrimmed
  split at h
  · -- an end tag
    rename_i hhead
    obtain ⟨tail, rfl⟩ : ∃ tail, tag = 0x2f :: tail := by
      cases tag with
      | nil => cases hhead
      | cons c tail => exact ⟨tail, by rw [Option.some.inj hhead]⟩
    unfold scanEndTag at h
    obtain ⟨view, hview, h⟩ := bind_ok h
    rw [substr_ok (by simp)] at hview
    obtain rfl : tail = view := by
      have htake : tail.take (tail.length + 1) = view := by simpa using hview
      rwa [List.take_of_length_le (Nat.le_succ _)] at htake
    dsimp only at h
    split at h
    · split at h
      · cases h
      · rename_i hname
        rw [not_or, not_or] at hname
        obtain ⟨hnonempty, hany, -⟩ := hname
        obtain ⟨gap, tail', hsplit, hgap, htail', -⟩ := trim_cases tail hnonempty
        have hclose : inner = lead ++ 0x2f :: (gap ++ trimAsciiWhitespace tail ++
            (tail' ++ trail)) := by
          rw [hinner]
          nth_rewrite 1 [hsplit]
          simp
        refine ⟨.closing ⟨lead, gap, trimAsciiWhitespace tail, tail' ++ trail⟩, ?_, ?_⟩
        · refine ⟨?_, hlead, hgap, ?_, hnonempty, ?_⟩
          · show TagText (lead ++ 0x2f :: (gap ++ trimAsciiWhitespace tail ++ (tail' ++ trail)))
            rw [← hclose]
            exact htext
          · intro c hc
            rcases List.mem_append.mp hc with hc | hc
            · exact htail' c hc
            · exact htrail c hc
          · simpa using hany
        · show angle (lead ++ 0x2f :: (gap ++ trimAsciiWhitespace tail ++ (tail' ++ trail))) = _
          rw [← hclose]
    · cases h
  · rename_i hhead
    by_cases hlast : tag.getLast? = some 0x2f
    · -- a self-closing tag: the slash is not its first byte
      obtain ⟨front, rfl⟩ := List.getLast?_eq_some_iff.mp hlast
      have hfront : front ≠ [] := by
        rintro rfl
        exact hhead rfl
      rw [List.head?_append_of_ne_nil _ hfront] at hhead
      have hsolid : ∀ c ∈ front.head?, isAsciiWhitespace c = false := by
        have hall := htrimmed.head
        rwa [List.head?_append_of_ne_nil _ hfront] at hall
      obtain ⟨name, rest, rfl, hname⟩ :=
        startName_of_head hfront hsolid hhead blank_nil
      rw [List.append_nil] at hname
      have hempty : inner = lead ++ (name ++ rest ++ 0x2f :: trail) := by
        rw [hinner]
        simp
      refine ⟨.leaf (.empty ⟨lead, name, rest, trail⟩), ⟨?_, hlead, hname, htrail⟩, ?_⟩
      · show TagText (lead ++ (name ++ rest ++ 0x2f :: trail))
        rw [← hempty]
        exact htext
      · show angle (lead ++ (name ++ rest ++ 0x2f :: trail)) = _
        rw [← hempty]
    · obtain ⟨name, rest, rfl, hname⟩ :=
        startName_of_head htrimmed.nonempty htrimmed.head hhead htrail
      have hstart : inner = lead ++ (name ++ (rest ++ trail)) := by
        rw [hinner]
        simp
      refine ⟨.opening ⟨lead, name, rest ++ trail⟩, ⟨?_, hlead, hname, ?_⟩, ?_⟩
      · show TagText (lead ++ (name ++ (rest ++ trail)))
        rw [← hstart]
        exact htext
      · -- the last byte that is not whitespace is that of the trimmed tag
        intro front gap heq hgap
        have heq' : (name ++ rest) ++ trail = (front ++ [0x2f]) ++ gap := by
          rw [List.append_assoc, heq]
          simp
        have hslash : Trimmed (front ++ [0x2f]) := by
          refine ⟨by simp, ?_, ?_⟩
          · intro c hc
            refine htrimmed.head c ?_
            have hfirst : (name ++ rest ++ trail).head? = (name ++ rest).head? :=
              List.head?_append_of_ne_nil _ htrimmed.nonempty
            rw [← hfirst, heq', List.head?_append_of_ne_nil _ (by simp)]
            exact hc
          · intro c hc
            obtain rfl : (0x2f : UInt8) = c := by simpa using hc
            decide
        refine hlast ?_
        rw [trimmed_unique htrimmed hslash htrail hgap heq']
        exact List.getLast?_concat
      · show angle (lead ++ (name ++ (rest ++ trail))) = _
        rw [← hstart]

/-! ## What a token does -/

/-- What a token does to the locals of the scanner, but for its position. -/
def act (s : ScanState) : Token → Except Exception ScanState
  | .leaf (.text bytes) => .ok (s.appendRequiredText bytes)
  | .leaf (.cdata body) => .ok (s.appendRequiredText body)
  | .leaf (.comment _) | .leaf (.instruction _) => .ok s
  | .leaf (.empty tag) => (openElement s tag.name true 0).map (·.moved s.position)
  | .opening tag => (openElement s tag.name false 0).map (·.moved s.position)
  | .closing tag => closeElement s tag.name

theorem appendRequiredText_moved (s : ScanState) (position : Nat) (text : View) :
    (s.moved position).appendRequiredText text = (s.appendRequiredText text).moved position := by
  unfold ScanState.appendRequiredText ScanState.openRequired ScanState.moved
  dsimp only
  split <;> rfl

theorem appendRequiredText_nil (s : ScanState) : s.appendRequiredText [] = s := by
  unfold ScanState.appendRequiredText
  split
  · rw [List.append_nil, Function.update_eq_self]
  · rfl

@[simp] theorem appendRequiredText_openRequired (s : ScanState) (text : View) :
    (s.appendRequiredText text).openRequired = s.openRequired := by
  unfold ScanState.openRequired
  rw [appendRequiredText_elements]

theorem appendRequiredText_append (s : ScanState) (a b : View) :
    (s.appendRequiredText a).appendRequiredText b = s.appendRequiredText (a ++ b) := by
  rw [ScanState.appendRequiredText, appendRequiredText_openRequired]
  unfold ScanState.appendRequiredText
  split
  · simp
  · simp

theorem openElement_moved (s : ScanState) (position : Nat) (name : View) (selfClosing : Bool)
    (tagEnd : Nat) :
    openElement (s.moved position) name selfClosing tagEnd
      = (openElement s name selfClosing 0).map (·.moved (tagEnd + 1)) := by
  unfold openElement ScanState.openRequired ScanState.moved
  dsimp only
  split
  · rfl
  · split
    · rfl
    · split <;> rfl

theorem moved_self (s : ScanState) : s.moved s.position = s := rfl

/-- The position plays no part. -/
theorem act_moved (s : ScanState) (position : Nat) (token : Token) :
    act (s.moved position) token = (act s token).map (·.moved position) := by
  cases token with
  | leaf l =>
    cases l with
    | text bytes => exact congrArg Except.ok (appendRequiredText_moved s position bytes)
    | cdata body => exact congrArg Except.ok (appendRequiredText_moved s position body)
    | comment | instruction => rfl
    | empty tag =>
      simp only [act, openElement_moved]
      cases openElement s tag.name true 0 <;> rfl
  | opening tag =>
    simp only [act, openElement_moved]
    cases openElement s tag.name false 0 <;> rfl
  | closing tag =>
    simp only [act, closeElement, ScanState.moved]
    split
    · split <;> rfl
    · rfl

theorem acts_moved (tokens : List Token) (s : ScanState) (position : Nat) :
    tokens.foldlM act (s.moved position) = (tokens.foldlM act s).map (·.moved position) := by
  induction tokens generalizing s with
  | nil => rfl
  | cons token tokens ih =>
    simp only [List.foldlM_cons, act_moved]
    cases act s token with
    | error e => rfl
    | ok u => exact ih u

/-! ## One turn of the loop -/

section Turn

variable {xml : View} {s s' : ScanState} {rest : View}

theorem drop_of_append {pos : Nat} {front : View} (h : xml.drop pos = front ++ rest) :
    xml.drop (pos + front.length) = rest := by
  rw [← List.drop_drop, h, List.drop_left]

theorem length_of_append {pos : Nat} {front : View} (hpos : pos ≤ xml.length)
    (h : xml.drop pos = front ++ rest) : pos + front.length + rest.length = xml.length := by
  have hlen := congrArg List.length h
  rw [List.length_drop, List.length_append] at hlen
  omega

theorem find_eq {pattern : View} {pos : Nat} (hpos : pos ≤ xml.length) :
    find xml pattern pos = findAux pattern (xml.drop pos) pos := by
  rw [find, if_neg (Nat.not_lt.mpr hpos)]

/-- The markup at a position, without the exceptions that cannot be. -/
theorem scanMarkup_eq {markup : Nat} (h : markup < xml.length) :
    scanMarkup xml s markup =
      if (xml.drop markup).take 4 = ascii "<!--" then
        match find xml (ascii "-->") (markup + 4) with
        | none => .error (.discovery "sensor configuration contains an unterminated comment")
        | some e => .ok (s.moved (e + 3))
      else if (xml.drop markup).take 9 = ascii "<![CDATA[" then
        match find xml (ascii "]]>") (markup + 9) with
        | none => .error (.discovery "sensor configuration contains unterminated CDATA")
        | some e => .ok ((s.appendRequiredText
            ((xml.drop (markup + 9)).take (e - markup - 9))).moved (e + 3))
      else if (xml.drop markup).take 2 = ascii "<?" then
        match find xml (ascii "?>") (markup + 2) with
        | none => .error (.discovery "sensor configuration contains unterminated markup")
        | some e => .ok (s.moved (e + 2))
      else if (xml.drop markup).take 2 = ascii "<!" then
        .error (.discovery "sensor configuration contains unsupported markup")
      else
        match findTagEnd xml (markup + 1) with
        | .error e => .error e
        | .ok tagEnd =>
            scanTag s ((xml.drop (markup + 1)).take (tagEnd - markup - 1)) tagEnd := by
  unfold scanMarkup
  simp only [substr_ok (Nat.le_of_lt h), substr_ok (Nat.succ_le_of_lt h), bind, Except.bind]
  split
  · rfl
  split
  · cases hfind : find xml (ascii "]]>") (markup + 9) with
    | none => rfl
    | some e =>
      have hbounds := find_bounds hfind
      simp only [substr_ok (show markup + 9 ≤ xml.length by omega)]
      rfl
  split
  · rfl
  split
  · rfl
  cases findTagEnd xml (markup + 1) <;> rfl

theorem ascii_comment : ascii "<!--" = [0x3c, 0x21, 0x2d, 0x2d] := rfl
theorem ascii_cdata :
    ascii "<![CDATA[" = [0x3c, 0x21, 0x5b, 0x43, 0x44, 0x41, 0x54, 0x41, 0x5b] := rfl
theorem ascii_instruction : ascii "<?" = [0x3c, 0x3f] := rfl
theorem ascii_declaration : ascii "<!" = [0x3c, 0x21] := rfl

/-- Markup that does not begin with `<!`. -/
theorem not_declaration {tail : View} (h : tail.head? ≠ some 0x21) :
    (0x3c :: tail).take 4 ≠ ascii "<!--" ∧ (0x3c :: tail).take 9 ≠ ascii "<![CDATA[" ∧
      (0x3c :: tail).take 2 ≠ ascii "<!" := by
  rw [ascii_comment, ascii_cdata, ascii_declaration]
  cases tail with
  | nil => simp
  | cons c tail =>
    have hc : c ≠ 0x21 := by simpa using h
    simp [hc]

theorem scanMarkup_comment {pos : Nat} {body : View} (hbody : ¬ ascii "-->" <:+: body)
    (hpos : pos < xml.length) (h : xml.drop pos = ascii "<!--" ++ (body ++ ascii "-->") ++ rest) :
    scanMarkup xml s pos = .ok (s.moved (pos + 4 + body.length + 3)) := by
  rw [List.append_assoc, List.append_assoc] at h
  have hlen := length_of_append hpos.le h
  have hfind : find xml (ascii "-->") (pos + 4) = some (pos + 4 + body.length) := by
    rw [find_eq (by rw [ascii_comment] at hlen; simp only [List.length_cons] at hlen; omega),
      show xml.drop (pos + 4) = _ from drop_of_append h]
    exact find_commentEnd hbody rest (pos + 4)
  rw [scanMarkup_eq hpos, h, if_pos (List.take_left' (by decide)), hfind]

theorem scanMarkup_cdata {pos : Nat} {body : View} (hbody : ¬ ascii "]]>" <:+: body)
    (hpos : pos < xml.length)
    (h : xml.drop pos = ascii "<![CDATA[" ++ (body ++ ascii "]]>") ++ rest) :
    scanMarkup xml s pos
      = .ok ((s.appendRequiredText body).moved (pos + 9 + body.length + 3)) := by
  rw [List.append_assoc, List.append_assoc] at h
  have hlen := length_of_append hpos.le h
  have hdrop : xml.drop (pos + 9) = body ++ (ascii "]]>" ++ rest) := drop_of_append h
  have hfind : find xml (ascii "]]>") (pos + 9) = some (pos + 9 + body.length) := by
    rw [find_eq (by rw [ascii_cdata] at hlen; simp only [List.length_cons] at hlen; omega), hdrop]
    exact find_cdataEnd hbody rest (pos + 9)
  have hcomment : (ascii "<![CDATA[" ++ (body ++ (ascii "]]>" ++ rest))).take 4 ≠ ascii "<!--" := by
    rw [ascii_cdata, ascii_comment]
    simp
  have htake : (body ++ (ascii "]]>" ++ rest)).take (pos + 9 + body.length - pos - 9) = body :=
    List.take_left' (by omega)
  rw [scanMarkup_eq hpos, h, if_neg hcomment, if_pos (List.take_left' (by decide)), hfind, hdrop]
  dsimp only
  rw [htake]

theorem scanMarkup_instruction {pos : Nat} {body : View} (hbody : ¬ ascii "?>" <:+: body)
    (hpos : pos < xml.length) (h : xml.drop pos = ascii "<?" ++ (body ++ ascii "?>") ++ rest) :
    scanMarkup xml s pos = .ok (s.moved (pos + 2 + body.length + 2)) := by
  rw [List.append_assoc, List.append_assoc] at h
  have hlen := length_of_append hpos.le h
  have hfind : find xml (ascii "?>") (pos + 2) = some (pos + 2 + body.length) := by
    rw [find_eq (by rw [ascii_instruction] at hlen; simp only [List.length_cons] at hlen; omega),
      show xml.drop (pos + 2) = _ from drop_of_append h]
    exact find_instructionEnd hbody rest (pos + 2)
  have hhead : (0x3f :: (body ++ (ascii "?>" ++ rest))).head? ≠ some 0x21 := by simp
  obtain ⟨hcomment, hcdata, -⟩ := not_declaration hhead
  have hview : xml.drop pos = 0x3c :: 0x3f :: (body ++ (ascii "?>" ++ rest)) := by
    rw [h, ascii_instruction]
    rfl
  rw [scanMarkup_eq hpos, hview, if_neg hcomment, if_neg hcdata, if_pos, hfind]
  rw [ascii_instruction]
  rfl

/-- A tag is taken off up to its `>`. -/
theorem scanMarkup_angle {pos : Nat} {inner : View} (htext : TagText inner)
    (hpos : pos < xml.length) (h : xml.drop pos = angle inner ++ rest) :
    scanMarkup xml s pos = scanTag s inner (pos + 1 + inner.length) := by
  have hview : xml.drop pos = [0x3c] ++ (inner ++ 0x3e :: rest) := by
    rw [h, angle]
    simp
  have hdrop : xml.drop (pos + 1) = inner ++ 0x3e :: rest := drop_of_append hview
  have hhead : ∀ c, c ≠ 0x3e → inner.head? ≠ some c → (inner ++ 0x3e :: rest).head? ≠ some c := by
    intro c hc hne
    cases inner with
    | nil => simpa using Ne.symm hc
    | cons d inner => exact hne
  obtain ⟨hcomment, hcdata, hdeclaration⟩ := not_declaration
    (hhead 0x21 (by decide) htext.noDeclaration)
  have hinstruction : (0x3c :: (inner ++ 0x3e :: rest)).take 2 ≠ ascii "<?" := by
    have hne := hhead 0x3f (by decide) htext.noInstruction
    rw [ascii_instruction]
    cases htail : inner ++ 0x3e :: rest with
    | nil => simp
    | cons c tail =>
      rw [htail] at hne
      simpa using hne
  have hend : findTagEnd xml (pos + 1) = .ok (pos + 1 + inner.length) := by
    rw [findTagEnd, hdrop, findTagEndAux_quoted htext.quoted]
  rw [scanMarkup_eq hpos, hview]
  simp only [List.cons_append, List.nil_append]
  rw [if_neg hcomment, if_neg hcdata, if_neg hinstruction, if_neg hdeclaration, hend]
  dsimp only
  rw [hdrop, List.take_left' (by omega)]

/-- Markup does what its token does. -/
theorem scanMarkup_token {pos : Nat} {token : Token} (hok : Token.Ok token)
    (hmarkup : ∀ bytes, token ≠ .leaf (.text bytes)) (hpos : pos < xml.length)
    (h : xml.drop pos = Token.render token ++ rest) :
    scanMarkup xml s pos
      = (act s token).map (·.moved (pos + (Token.render token).length)) := by
  have hmove : ∀ (selfClosing : Bool) (name inner : View),
      openElement s name selfClosing (pos + 1 + inner.length)
        = ((openElement s name selfClosing 0).map (·.moved s.position)).map
            (·.moved (pos + (angle inner).length)) := by
    intro selfClosing name inner
    have hlen : pos + (angle inner).length = pos + 1 + inner.length + 1 := by
      simp only [angle, List.length_cons, List.length_append, List.length_nil]
      omega
    rw [hlen, ← moved_self s, openElement_moved, moved_self]
    cases openElement s name selfClosing 0 <;> rfl
  cases token with
  | leaf l =>
    cases l with
    | text bytes => exact absurd rfl (hmarkup bytes)
    | comment body =>
      rw [scanMarkup_comment hok hpos h]
      simp only [act, Token.render, Leaf.render, Except.map, List.length_append, ascii_comment,
        length_ascii_commentEnd, List.length_cons, List.length_nil]
      congr 2
      omega
    | cdata body =>
      rw [scanMarkup_cdata hok hpos h]
      simp only [act, Token.render, Leaf.render, Except.map, List.length_append, ascii_cdata,
        length_ascii_cdataEnd, List.length_cons, List.length_nil]
      congr 2
      omega
    | instruction body =>
      rw [scanMarkup_instruction hok hpos h]
      simp only [act, Token.render, Leaf.render, Except.map, List.length_append,
        ascii_instruction, length_ascii_piEnd, List.length_cons, List.length_nil]
      congr 2
      omega
    | empty tag =>
      rw [scanMarkup_angle (EmptyTag.Ok.text hok) hpos h, scanTag_empty hok]
      exact hmove true tag.name tag.inner
  | opening tag =>
    rw [scanMarkup_angle (StartTag.Ok.text hok) hpos h, scanTag_start hok]
    exact hmove false tag.name tag.inner
  | closing tag =>
    rw [scanMarkup_angle (EndTag.Ok.text hok) hpos h, scanTag_end hok]
    have hlen : pos + (Token.render (.closing tag)).length = pos + 1 + tag.inner.length + 1 := by
      simp only [Token.render, angle, List.length_cons, List.length_append, List.length_nil]
      omega
    rw [hlen]
    rfl

/-- Markup begins with `<`. -/
theorem Token.render_markup {token : Token} (h : ∀ bytes, token ≠ .leaf (.text bytes)) :
    ∃ tail, Token.render token = 0x3c :: tail := by
  cases token with
  | opening tag => exact ⟨_, rfl⟩
  | closing tag => exact ⟨_, rfl⟩
  | leaf l =>
    cases l with
    | text bytes => exact absurd rfl (h bytes)
    | comment body =>
      rw [Token.render, Leaf.render, ascii_comment]
      exact ⟨_, rfl⟩
    | cdata body =>
      rw [Token.render, Leaf.render, ascii_cdata]
      exact ⟨_, rfl⟩
    | instruction body =>
      rw [Token.render, Leaf.render, ascii_instruction]
      exact ⟨_, rfl⟩
    | empty tag => exact ⟨_, rfl⟩

/-- A turn at a `<` is the markup there. -/
theorem scanStep_markup {tail : View} (hpos : s.position < xml.length)
    (h : xml.drop s.position = 0x3c :: tail) : scanStep xml s = scanMarkup xml s s.position := by
  have hfind : find xml (ascii "<") s.position = some s.position := by
    rw [find_eq hpos.le, h, findAux_lt]
  simp only [scanStep, hfind, substr_ok hpos.le, Nat.sub_self, List.take_zero, bind, Except.bind,
    appendRequiredText_nil]

theorem scanTag_moved (position : Nat) (inner : View) (tagEnd : Nat) :
    scanTag (s.moved position) inner tagEnd = scanTag s inner tagEnd := by
  unfold scanTag scanEndTag scanStartTag
  have hopen : ∀ name selfClosing, openElement (s.moved position) name selfClosing tagEnd
      = openElement s name selfClosing tagEnd := by
    intro name selfClosing
    rw [openElement_moved, ← openElement_moved s s.position, moved_self]
  simp only [hopen]
  rfl

theorem scanMarkup_moved {markup : Nat} (position : Nat) (h : markup < xml.length) :
    scanMarkup xml (s.moved position) markup = scanMarkup xml s markup := by
  rw [scanMarkup_eq h, scanMarkup_eq h]
  simp only [appendRequiredText_moved, scanTag_moved]
  rfl

/-- Character data at the position can be taken off first. -/
theorem scanStep_text {bytes : View} (hbytes : 0x3c ∉ bytes) (hpos : s.position ≤ xml.length)
    (h : xml.drop s.position = bytes ++ rest) :
    scanStep xml s
      = scanStep xml ((s.appendRequiredText bytes).moved (s.position + bytes.length)) := by
  have hlen := length_of_append hpos h
  have hdrop : xml.drop (s.position + bytes.length) = rest := drop_of_append h
  have hpos' : s.position + bytes.length ≤ xml.length := by omega
  have hfind : find xml (ascii "<") s.position
      = find xml (ascii "<") (s.position + bytes.length) := by
    rw [find_eq hpos, find_eq hpos', h, hdrop, findAux_text hbytes]
  simp only [scanStep, ScanState.moved, substr_ok hpos, substr_ok hpos', bind, Except.bind, h,
    hdrop, hfind]
  cases hnext : find xml (ascii "<") (s.position + bytes.length) with
  | none =>
    have hall : (bytes ++ rest).take xml.length = bytes ++ rest.take xml.length := by
      rw [List.take_of_length_le, List.take_of_length_le]
      · omega
      · rw [List.length_append]
        omega
    have happend := appendRequiredText_moved (s.appendRequiredText bytes)
      (s.position + bytes.length) (rest.take xml.length)
    rw [appendRequiredText_append, ← hall] at happend
    have hend := congrArg (·.moved xml.length) happend.symm
    exact congrArg Except.ok hend
  | some markup =>
    obtain ⟨hle, hlt⟩ := find_bounds hnext
    rw [length_ascii_lt] at hlt
    have htake : (bytes ++ rest).take (markup - s.position)
        = bytes ++ rest.take (markup - (s.position + bytes.length)) := by
      rw [List.take_append, List.take_of_length_le (by omega)]
      congr 2
      omega
    have happend := appendRequiredText_moved (s.appendRequiredText bytes)
      (s.position + bytes.length) (rest.take (markup - (s.position + bytes.length)))
    rw [appendRequiredText_append, ← htake] at happend
    exact (scanMarkup_moved (s.position + bytes.length) hlt).symm.trans
      (congrArg (fun u => scanMarkup xml u markup) happend.symm)

/-- With nothing but character data left, a turn takes it all. -/
theorem scanStep_last {bytes : View} (hbytes : 0x3c ∉ bytes) (hpos : s.position ≤ xml.length)
    (h : xml.drop s.position = bytes) :
    scanStep xml s = .ok ((s.appendRequiredText bytes).moved xml.length) := by
  have hlen := congrArg List.length h
  rw [List.length_drop] at hlen
  have hfind : find xml (ascii "<") s.position = none := by
    rw [find_eq hpos, h, ← List.append_nil bytes, findAux_text hbytes]
    rfl
  simp only [scanStep, hfind, substr_ok hpos, bind, Except.bind, h]
  rw [List.take_of_length_le (by omega)]
  rfl

/-- What markup the scanner gets through begins with is a token. -/
theorem token_of_scanMarkup {pos : Nat} {tail : View} (hpos : pos < xml.length)
    (h : xml.drop pos = 0x3c :: tail) (hscan : scanMarkup xml s pos = .ok s') :
    ∃ token rest, Token.Ok token ∧ (∀ bytes, token ≠ .leaf (.text bytes)) ∧
      xml.drop pos = Token.render token ++ rest := by
  -- a section: the opening that was recognised, and what `find` returned
  have hsection : ∀ (opening closing : View) (e : Nat), closing ≠ [] →
      (xml.drop pos).take opening.length = opening →
      find xml closing (pos + opening.length) = some e →
      ∃ body rest, xml.drop pos = opening ++ (body ++ closing) ++ rest ∧
        ¬ closing <:+: body := by
    intro opening closing e hne htake hfind
    have hbounds := find_bounds hfind
    rw [find_eq (by omega)] at hfind
    obtain ⟨body, rest, hview, -, hbody⟩ := findAux_some hne hfind
    refine ⟨body, rest, ?_, hbody⟩
    have hsplit := List.take_append_drop opening.length (xml.drop pos)
    rw [htake, List.drop_drop, hview] at hsplit
    rw [← hsplit]
    simp
  rw [scanMarkup_eq hpos] at hscan
  split at hscan
  · rename_i hhead
    split at hscan
    · cases hscan
    · rename_i e hfind
      obtain ⟨body, rest, hview, hbody⟩ :=
        hsection (ascii "<!--") (ascii "-->") e (by decide) hhead hfind
      exact ⟨.leaf (.comment body), rest, hbody, by simp, hview⟩
  split at hscan
  · rename_i hhead
    split at hscan
    · cases hscan
    · rename_i e hfind
      obtain ⟨body, rest, hview, hbody⟩ :=
        hsection (ascii "<![CDATA[") (ascii "]]>") e (by decide) hhead hfind
      exact ⟨.leaf (.cdata body), rest, hbody, by simp, hview⟩
  split at hscan
  · rename_i hhead
    split at hscan
    · cases hscan
    · rename_i e hfind
      obtain ⟨body, rest, hview, hbody⟩ :=
        hsection (ascii "<?") (ascii "?>") e (by decide) hhead hfind
      exact ⟨.leaf (.instruction body), rest, hbody, by simp, hview⟩
  rename_i hinstruction
  split at hscan
  · cases hscan
  rename_i hdeclaration
  split at hscan
  · cases hscan
  rename_i tagEnd hend
  have hdrop : xml.drop (pos + 1) = tail := by
    rw [← List.drop_drop, h, List.drop_succ_cons, List.drop_zero]
  rw [findTagEnd, hdrop] at hend
  split at hend
  · rename_i found hfound
    cases hend
    obtain ⟨inner, rest, rfl, rfl, hquoted⟩ := findTagEndAux_some (by simp) hfound
    rw [hdrop, List.take_left' (by omega)] at hscan
    have hhead : ∀ c, (0x3c :: (inner ++ 0x3e :: rest)).take 2 ≠ [0x3c, c] →
        inner.head? ≠ some c := by
      intro c hne hsome
      cases inner with
      | nil => cases hsome
      | cons d inner =>
        obtain rfl : d = c := by simpa using hsome
        exact hne rfl
    rw [h] at hinstruction hdeclaration
    have htext : TagText inner :=
      ⟨hquoted, hhead 0x21 (ascii_declaration ▸ hdeclaration),
        hhead 0x3f (ascii_instruction ▸ hinstruction)⟩
    obtain ⟨token, hok, hrender⟩ := token_of_scanTag htext hscan
    refine ⟨token, rest, hok, ?_, ?_⟩
    · -- a tag is no character data
      rintro bytes rfl
      refine (show 0x3c ∉ bytes from hok) ?_
      have hbytes : bytes = angle inner := hrender
      rw [hbytes, angle]
      exact List.mem_cons_self
    · rw [h, hrender, angle]
      simp
  · cases hend

end Turn

/-! ## The loop -/

theorem renderTokens_cons (token : Token) (tokens : List Token) :
    renderTokens (token :: tokens) = Token.render token ++ renderTokens tokens := by
  simp [renderTokens]

/-- The loop at the end of the input. -/
theorem scanLoop_end {xml : View} {s : ScanState} (h : xml.length ≤ s.position) (fuel : Nat) :
    scanLoop xml fuel s = .ok s := by
  cases fuel with
  | zero => rfl
  | succ fuel => rw [scanLoop, if_neg (Nat.not_lt.mpr h)]

/-- The loop may take character data off in a turn of its own. -/
theorem scanLoop_text {xml rest bytes : View} {s : ScanState} {fuel : Nat} (hbytes : 0x3c ∉ bytes)
    (hpos : s.position < xml.length) (h : xml.drop s.position = bytes ++ rest) :
    scanLoop xml (fuel + 1) s = scanLoop xml (fuel + 1)
      ((s.appendRequiredText bytes).moved (s.position + bytes.length)) := by
  have hlen := length_of_append hpos.le h
  cases hrest : rest with
  | nil =>
    rw [hrest, List.append_nil] at h
    rw [hrest, List.length_nil, Nat.add_zero] at hlen
    have hend : ∀ n, scanLoop xml n ((s.appendRequiredText bytes).moved xml.length)
        = .ok ((s.appendRequiredText bytes).moved xml.length) := scanLoop_end (Nat.le_refl _)
    rw [hlen, hend, scanLoop, if_pos hpos, scanStep_last hbytes hpos.le h]
    exact hend fuel
  | cons c tail =>
    have hlt : s.position + bytes.length < xml.length := by
      rw [hrest, List.length_cons] at hlen
      omega
    rw [scanLoop, if_pos hpos, scanStep_text hbytes hpos.le h, scanLoop]
    exact (if_pos hlt).symm

/-- **The loop over the rendering of tokens** does what they do one after
the other. -/
theorem scanLoop_tokens {xml : View} {tokens : List Token} (hok : ∀ token ∈ tokens, Token.Ok token)
    {s : ScanState} {fuel : Nat} (hpos : s.position ≤ xml.length)
    (hfuel : xml.length ≤ s.position + fuel) (h : xml.drop s.position = renderTokens tokens) :
    scanLoop xml fuel s = (tokens.foldlM act s).map (·.moved xml.length) := by
  induction tokens generalizing s fuel with
  | nil =>
    have hend : xml.length ≤ s.position := List.drop_eq_nil_iff.mp h
    have hmoved : s.moved xml.length = s := by
      rw [Nat.le_antisymm hend hpos, moved_self]
    rw [scanLoop_end hend]
    exact congrArg Except.ok hmoved.symm
  | cons token tokens ih =>
    have hokToken : Token.Ok token := hok token List.mem_cons_self
    have hokRest : ∀ t ∈ tokens, Token.Ok t := fun t ht => hok t (List.mem_cons_of_mem _ ht)
    rw [renderTokens_cons] at h
    have hlen := length_of_append hpos h
    have hdrop := drop_of_append h
    by_cases hmarkup : ∀ bytes, token ≠ .leaf (.text bytes)
    · obtain ⟨tail, htail⟩ := Token.render_markup hmarkup
      have hlt : s.position < xml.length := by
        rw [htail, List.length_cons] at hlen
        omega
      obtain ⟨fuel, rfl⟩ : ∃ n, fuel = n + 1 := ⟨fuel - 1, by omega⟩
      have hstart : xml.drop s.position = 0x3c :: (tail ++ renderTokens tokens) := by
        rw [h, htail]
        rfl
      rw [scanLoop, if_pos hlt, scanStep_markup hlt hstart, scanMarkup_token hokToken hmarkup hlt h,
        List.foldlM_cons]
      cases act s token with
      | error e => rfl
      | ok u =>
        have hrest : scanLoop xml fuel (u.moved (s.position + (Token.render token).length)) = _ :=
          ih hokRest (by simp only [ScanState.moved]; omega)
          (by rw [htail, List.length_cons] at hlen ⊢; simp only [ScanState.moved]; omega) hdrop
        refine hrest.trans ?_
        rw [acts_moved]
        simp only [bind, Except.bind]
        cases tokens.foldlM act u <;> rfl
    · push Not at hmarkup
      obtain ⟨bytes, rfl⟩ := hmarkup
      have hbytes : 0x3c ∉ bytes := hokToken
      change xml.drop s.position = bytes ++ renderTokens tokens at h
      change s.position + bytes.length + (renderTokens tokens).length = xml.length at hlen
      have hrest : scanLoop xml fuel
          ((s.appendRequiredText bytes).moved (s.position + bytes.length)) = _ :=
        ih hokRest (by simp only [ScanState.moved]; omega) (by simp only [ScanState.moved]; omega)
          hdrop
      rw [acts_moved] at hrest
      have hstep : scanLoop xml fuel s = scanLoop xml fuel
          ((s.appendRequiredText bytes).moved (s.position + bytes.length)) := by
        cases bytes with
        | nil => rw [appendRequiredText_nil, List.length_nil, Nat.add_zero, moved_self]
        | cons c bytes =>
          have hlt : s.position < xml.length := by
            rw [List.length_cons] at hlen
            omega
          obtain ⟨fuel, rfl⟩ : ∃ n, fuel = n + 1 := ⟨fuel - 1, by omega⟩
          exact scanLoop_text hbytes hlt h
      rw [hstep, hrest, List.foldlM_cons]
      simp only [act, bind, Except.bind]
      cases tokens.foldlM act (s.appendRequiredText bytes) <;> rfl

/-- A turn that raises nothing reads character data, and markup unless the
input ends. -/
theorem tokens_of_scanStep {xml : View} {s s' : ScanState} (hpos : s.position < xml.length)
    (h : scanStep xml s = .ok s') :
    ∃ tokens : List Token, (∀ token ∈ tokens, Token.Ok token) ∧
      xml.drop s.position = renderTokens tokens ++ xml.drop s'.position := by
  cases hfind : find xml (ascii "<") s.position with
  | none =>
    simp only [scanStep, hfind, substr_ok hpos.le, bind, Except.bind, pure, Except.pure] at h
    cases h
    have hbytes : 0x3c ∉ xml.drop s.position := by
      rw [find_eq hpos.le] at hfind
      exact not_mem_of_findAux hfind
    refine ⟨[.leaf (.text (xml.drop s.position))], ?_, ?_⟩
    · intro token htoken
      rw [List.mem_singleton.mp htoken]
      exact hbytes
    · simp [renderTokens, Token.render, Leaf.render]
  | some markup =>
    obtain ⟨hle, hlt⟩ := find_bounds hfind
    rw [length_ascii_lt] at hlt
    rw [find_eq hpos.le] at hfind
    obtain ⟨bytes, tail, hview, rfl, hbytes⟩ := findAux_some (by decide) hfind
    rw [ascii_lt] at hview hbytes
    rw [List.singleton_infix_iff] at hbytes
    have hdrop : xml.drop (s.position + bytes.length) = 0x3c :: tail := drop_of_append hview
    rw [scanStep_text hbytes hpos.le hview] at h
    generalize hu : (s.appendRequiredText bytes).moved (s.position + bytes.length) = u at h
    have hupos : u.position = s.position + bytes.length := by rw [← hu]; rfl
    rw [← hupos] at hdrop hlt
    rw [scanStep_markup hlt hdrop] at h
    obtain ⟨token, rest, hok, hmarkup, htoken⟩ := token_of_scanMarkup hlt hdrop h
    have hrest : xml.drop s'.position = rest := by
      rw [scanMarkup_token hok hmarkup hlt htoken] at h
      cases hact : act u token with
      | error e =>
        rw [hact] at h
        cases h
      | ok v =>
        rw [hact] at h
        cases h
        exact drop_of_append htoken
    refine ⟨[.leaf (.text bytes), token], ?_, ?_⟩
    · intro t ht
      rcases List.mem_cons.mp ht with rfl | ht
      · exact hbytes
      · rw [List.mem_singleton.mp ht]
        exact hok
    · rw [hrest, renderTokens_cons, renderTokens_cons]
      rw [hdrop] at htoken
      simp only [renderTokens, List.map_nil, List.flatten_nil, List.append_nil, List.append_assoc]
      rw [← htoken]
      exact hview

/-- **What the loop gets through is the rendering of tokens.** -/
theorem exists_tokens_of_scan {xml : View} {fuel : Nat} {s s' : ScanState}
    (hpos : s.position ≤ xml.length) (hfuel : xml.length ≤ s.position + fuel)
    (h : scanLoop xml fuel s = .ok s') :
    ∃ tokens : List Token, (∀ token ∈ tokens, Token.Ok token) ∧
      renderTokens tokens = xml.drop s.position := by
  -- at the end there are no tokens left
  have hdone : ∀ position, xml.length ≤ position → ∃ tokens : List Token,
      (∀ token ∈ tokens, Token.Ok token) ∧ renderTokens tokens = xml.drop position := by
    intro position hend
    refine ⟨[], by simp, ?_⟩
    rw [List.drop_eq_nil_of_le hend]
    rfl
  induction fuel generalizing s with
  | zero => exact hdone s.position (by omega)
  | succ fuel ih =>
    by_cases hlt : s.position < xml.length
    · rw [scanLoop, if_pos hlt] at h
      split at h
      · cases h
      · rename_i u hstep
        obtain ⟨hforward, hwithin⟩ := scanStep_position hlt hstep
        obtain ⟨front, hfront, hview⟩ := tokens_of_scanStep hlt hstep
        obtain ⟨tokens, hok, htokens⟩ := ih hwithin (by omega) h
        refine ⟨front ++ tokens, ?_, ?_⟩
        · intro t ht
          rcases List.mem_append.mp ht with ht | ht
          · exact hfront t ht
          · exact hok t ht
        · rw [hview, ← htokens]
          simp [renderTokens]
    · exact hdone s.position (Nat.not_lt.mp hlt)

end PyNetFT.Core
