/-
PyNetFT.Core.XmlConfig — the sensor-configuration scanner
(`detail/xml_config.cpp`) and the discovery request around it
(`discovery.cpp`).

The document is a list of bytes and the scanner works on POSITIONS in it,
as the source does: `substr` throws `std::out_of_range` when its start
is past the end of the view, `find` returns no position instead. Which
exception leaves matters, because `receive_session` catches only
`DiscoveryError`; `configurationForSession_error` shows that nothing else leaves.

The loop is bounded by the number of bytes, since every turn moves
`position` forward (`scanStep_position`).
-/
import PyNetFT.Core.Types
import Mathlib.Logic.Function.Basic

namespace PyNetFT.Core

/-- The exceptions the discovery code can raise. -/
inductive Exception where
  | discovery (message : String)
  | outOfRange (message : String)
  | invalidArgument (message : String)
  deriving DecidableEq

/-- `what()`. -/
def Exception.what : Exception → String
  | .discovery message | .outOfRange message | .invalidArgument message => message

/-- `std::string_view`. -/
abbrev View := List UInt8

def ascii (text : String) : View := text.toList.map fun c => UInt8.ofNat c.toNat

/-! ## String views -/

/-- `substr(pos, count)`. -/
def substr (view : View) (pos count : Nat) : Except Exception View :=
  if view.length < pos then .error (.outOfRange "basic_string_view::substr")
  else .ok ((view.drop pos).take count)

/-- First occurrence of `pattern` in `rest`, whose first byte has index `i`. -/
def findAux (pattern : View) : View → Nat → Option Nat
  | [], i => if pattern = [] then some i else none
  | c :: rest, i =>
      if (c :: rest).take pattern.length = pattern then some i
      else findAux pattern rest (i + 1)

/-- `find(pattern, pos)`; a start past the end finds nothing. -/
def find (view pattern : View) (pos : Nat) : Option Nat :=
  if view.length < pos then none else findAux pattern (view.drop pos) pos

/-- `is_ascii_whitespace`. -/
def isAsciiWhitespace (c : UInt8) : Bool :=
  c = 0x20 || c = 0x09 || c = 0x0a || c = 0x0d || c = 0x0c || c = 0x0b

/-- `trim_ascii_whitespace`. -/
def trimAsciiWhitespace (value : View) : View :=
  ((value.dropWhile isAsciiWhitespace).reverse.dropWhile isAsciiWhitespace).reverse

/-! ## Tags -/

/-- `kRequiredTags`. -/
def requiredTags : List String := ["prodname", "cfgcpf", "cfgcpt", "scfgfu", "scfgtu"]

/-- The name of a required field, for the texts of errors. -/
def requiredTag (index : Fin 5) : String := requiredTags.getD index ""

/-- `required_tag_index`; `none` is the source's `-1`. -/
def requiredTagIndex (name : View) : Option (Fin 5) :=
  (List.finRange 5).find? fun index => decide (name = ascii (requiredTag index))

/-- The scan of `find_tag_end`, with the open quote if there is one. -/
def findTagEndAux : Option UInt8 → View → Nat → Option Nat
  | _, [], _ => none
  | some quote, c :: rest, i =>
      findTagEndAux (if c = quote then none else some quote) rest (i + 1)
  | none, c :: rest, i =>
      if c = 0x27 ∨ c = 0x22 then findTagEndAux (some c) rest (i + 1)
      else if c = 0x3e then some i
      else findTagEndAux none rest (i + 1)

/-- `find_tag_end`. -/
def findTagEnd (xml : View) (start : Nat) : Except Exception Nat :=
  match findTagEndAux none (xml.drop start) start with
  | some position => .ok position
  | none => .error (.discovery "sensor configuration contains unterminated markup")

structure OpenElement where
  name : View
  requiredIndex : Option (Fin 5)
  deriving DecidableEq

/-- The locals of `extract_required_fields`; the top of the element
stack is the head of the list. -/
structure ScanState where
  fields : Fin 5 → View := fun _ => []
  seen : Fin 5 → Bool := fun _ => false
  elements : List OpenElement := []
  position : Nat := 0

/-- The required element that is open on top, if it is one. -/
def ScanState.openRequired (s : ScanState) : Option (Fin 5) :=
  s.elements.head?.bind OpenElement.requiredIndex

/-- `append_required_text`. -/
def ScanState.appendRequiredText (s : ScanState) (text : View) : ScanState :=
  match s.openRequired with
  | some index => { s with fields := Function.update s.fields index (s.fields index ++ text) }
  | none => s

/-- An end tag: lines 165–173, `tag` trimmed and starting with `/`. -/
def scanEndTag (s : ScanState) (tag : View) (tagEnd : Nat) : Except Exception ScanState := do
  let name := trimAsciiWhitespace (← substr tag 1 tag.length)
  match s.elements with
  | top :: rest =>
      if name = [] ∨ name.any (fun c => isAsciiWhitespace c || c = 0x2f) ∨ top.name ≠ name then
        throw (.discovery "sensor configuration contains malformed element nesting")
      else return { s with elements := rest, position := tagEnd + 1 }
  | [] => throw (.discovery "sensor configuration contains malformed element nesting")

/-- Is the tag self-closing, and what is left of it: lines 176–180. -/
def splitSelfClosing (tag : View) : Except Exception (Bool × View) :=
  if tag.getLast? = some 0x2f then do
    return (true, trimAsciiWhitespace (← substr tag 0 (tag.length - 1)))
  else .ok (false, tag)

/-- Open an element: lines 187–202. -/
def openElement (s : ScanState) (name : View) (selfClosing : Bool) (tagEnd : Nat) :
    Except Exception ScanState :=
  let requiredIndex := requiredTagIndex name
  let opened := { s with
    elements := if selfClosing then s.elements else ⟨name, requiredIndex⟩ :: s.elements
    position := tagEnd + 1 }
  if s.openRequired.isSome then
    .error (.discovery "sensor configuration fields must contain text only")
  else
    match requiredIndex with
    | none => .ok opened
    | some index =>
        if s.seen index then
          .error (.discovery ("sensor configuration field '" ++ requiredTag index ++
            "' must appear exactly once"))
        else .ok { opened with seen := Function.update s.seen index true }

/-- A start or self-closing tag: lines 175–203. -/
def scanStartTag (s : ScanState) (tag : View) (tagEnd : Nat) : Except Exception ScanState := do
  let (selfClosing, tag) ← splitSelfClosing tag
  let name ← substr tag 0 ((tag.findIdx? isAsciiWhitespace).getD tag.length)
  if name = [] ∨ name.head? = some 0x2f then
    throw (.discovery "sensor configuration contains malformed markup")
  else openElement s name selfClosing tagEnd

/-- The markup at `markup`: lines 130–203. -/
def scanMarkup (xml : View) (s : ScanState) (markup : Nat) : Except Exception ScanState := do
  if (← substr xml markup 4) = ascii "<!--" then
    match find xml (ascii "-->") (markup + 4) with
    | none => throw (.discovery "sensor configuration contains an unterminated comment")
    | some e => return { s with position := e + 3 }
  else if (← substr xml markup 9) = ascii "<![CDATA[" then
    match find xml (ascii "]]>") (markup + 9) with
    | none => throw (.discovery "sensor configuration contains unterminated CDATA")
    | some e =>
        let text ← substr xml (markup + 9) (e - markup - 9)
        return { s.appendRequiredText text with position := e + 3 }
  else if (← substr xml markup 2) = ascii "<?" then
    match find xml (ascii "?>") (markup + 2) with
    | none => throw (.discovery "sensor configuration contains unterminated markup")
    | some e => return { s with position := e + 2 }
  else if (← substr xml markup 2) = ascii "<!" then
    throw (.discovery "sensor configuration contains unsupported markup")
  else
    let tagEnd ← findTagEnd xml (markup + 1)
    let tag := trimAsciiWhitespace (← substr xml (markup + 1) (tagEnd - markup - 1))
    if tag = [] then
      throw (.discovery "sensor configuration contains malformed markup")
    else if tag.head? = some 0x2f then scanEndTag s tag tagEnd
    else scanStartTag s tag tagEnd

/-- One turn of the loop of `extract_required_fields`. -/
def scanStep (xml : View) (s : ScanState) : Except Exception ScanState :=
  match find xml (ascii "<") s.position with
  | none => do
      let text ← substr xml s.position xml.length
      return { s.appendRequiredText text with position := xml.length }
  | some markup => do
      let text ← substr xml s.position (markup - s.position)
      scanMarkup xml (s.appendRequiredText text) markup

/-- `while (position < xml.size())`. -/
def scanLoop (xml : View) : Nat → ScanState → Except Exception ScanState
  | 0, s => .ok s
  | fuel + 1, s =>
      if s.position < xml.length then
        match scanStep xml s with
        | .error e => .error e
        | .ok s' => scanLoop xml fuel s'
      else .ok s

/-- `kMaximumFieldLength`. -/
def maximumFieldLength : Nat := 128

/-- The check of one field after the scan: lines 210–228. -/
def finishField (s : ScanState) (index : Fin 5) : Except Exception View :=
  if s.seen index = false then
    -- legacy firmware may omit the display name
    if index = 0 then .ok (ascii "ATI Net F/T")
    else .error (.discovery ("sensor configuration field '" ++ requiredTag index ++
      "' must appear exactly once"))
  else
    let value := trimAsciiWhitespace (s.fields index)
    if value = [] then
      .error (.discovery ("sensor configuration field '" ++ requiredTag index ++ "' is empty"))
    else if maximumFieldLength < value.length then
      .error (.discovery ("sensor configuration field '" ++ requiredTag index ++ "' is too long"))
    else .ok value

/-- `extract_required_fields`: the five contents in tag order. -/
def extractRequiredFields (xml : View) : Except Exception (List View) := do
  let s ← scanLoop xml xml.length {}
  if s.elements ≠ [] then
    throw (.discovery "sensor configuration contains malformed element nesting")
  (List.finRange 5).mapM (finishField s)

/-! ## The configuration -/

/-- `parse_positive_count`. -/
def parsePositiveCount (P : Platform) (value : View) (tag : String) :
    Except Exception Binary64 :=
  let bad := Exception.discovery ("sensor configuration field '" ++ tag ++
    "' must be a finite positive number")
  if value = [] ∨ value.head? = some 0x2b then .error bad
  else
    match P.extractDouble value with
    | none => .error bad
    | some (result, rest) =>
        if rest ≠ [] ∨ result.isFinite = false ∨ result.value ≤ 0 then .error bad
        else .ok result

/-- `to_string(ForceUnit)`. -/
def ForceUnit.toText : ForceUnit → String
  | .poundForce => "lbf"
  | .newton => "N"
  | .kiloPoundForce => "klbf"
  | .kiloNewton => "kN"
  | .kilogramForce => "kgf"
  | .unknown => "unknown"

/-- `to_string(TorqueUnit)`. -/
def TorqueUnit.toText : TorqueUnit → String
  | .poundForceInch => "lbf-in"
  | .poundForceFoot => "lbf-ft"
  | .newtonMeter => "N-m"
  | .newtonMillimeter => "N-mm"
  | .kilogramForceCentimeter => "kgf-cm"
  | .kiloNewtonMeter => "kN-m"
  | .unknown => "unknown"

/-- `force_unit_from_string`. -/
def forceUnitFromString (value : View) : Option ForceUnit :=
  [ForceUnit.unknown, .poundForce, .newton, .kiloPoundForce, .kiloNewton, .kilogramForce].find?
    fun unit => decide (ascii unit.toText = value)

/-- `torque_unit_from_string`. -/
def torqueUnitFromString (value : View) : Option TorqueUnit :=
  [TorqueUnit.unknown, .poundForceInch, .poundForceFoot, .newtonMeter, .newtonMillimeter,
    .kilogramForceCentimeter, .kiloNewtonMeter].find?
    fun unit => decide (ascii unit.toText = value)

/-- `normalize_torque_spelling`. -/
def normalizeTorqueSpelling (value : View) : View :=
  if value = ascii "Nm" then ascii "N-m"
  else if value = ascii "Nmm" then ascii "N-mm"
  else if value = ascii "kg-cm" then ascii "kgf-cm"
  else value

/-- `parse_force_unit`. -/
def parseForceUnit (value : View) : Except Exception ForceUnit :=
  match forceUnitFromString value with
  | none | some .unknown =>
      .error (.discovery "sensor configuration contains an unknown force unit")
  | some unit => .ok unit

/-- `parse_torque_unit`. -/
def parseTorqueUnit (value : View) : Except Exception TorqueUnit :=
  match torqueUnitFromString (normalizeTorqueSpelling value) with
  | none | some .unknown =>
      .error (.discovery "sensor configuration contains an unknown torque unit")
  | some unit => .ok unit

/-- `parse_sensor_configuration`; the `std::invalid_argument` of
`validate` is caught and thrown again as a `DiscoveryError`. -/
def parseSensorConfiguration (P : Platform) (xml : View) :
    Except Exception SensorConfiguration := do
  let fields ← extractRequiredFields xml
  let force ← parsePositiveCount P (fields.getD 1 []) "cfgcpf"
  let torque ← parsePositiveCount P (fields.getD 2 []) "cfgcpt"
  let forceUnit ← parseForceUnit (fields.getD 3 [])
  let torqueUnit ← parseTorqueUnit (fields.getD 4 [])
  let calibration : Calibration := ⟨force, torque, forceUnit, torqueUnit⟩
  match validateCalibration calibration with
  | .error message => throw (.discovery message)
  | .ok _ =>
      return { productName := fields.getD 0 []
               calibration := calibration
               source := .sensor
               revision := 1 }

/-! ## The request -/

/-- `kMaximumResponseBytes`. -/
def maximumResponseBytes : Nat := 65536

structure ResponseBuffer where
  body : View := []
  tooLarge : Bool := false
  deriving DecidableEq

/-- One write callback: the chunk has `size * count` bytes. -/
structure Chunk where
  size : Nat
  count : Nat
  data : View
  deriving DecidableEq

/-- `std::numeric_limits<std::size_t>::max()`. -/
def sizeMax : Nat := 2 ^ 64 - 1

/-- `append_response`, with its return value; allocation succeeds. -/
def appendResponse (response : ResponseBuffer) (chunk : Chunk) : ResponseBuffer × Nat :=
  if chunk.size ≠ 0 ∧ sizeMax / chunk.size < chunk.count then
    ({ response with tooLarge := true }, 0)
  else
    let byteCount := chunk.size * chunk.count
    if maximumResponseBytes - response.body.length < byteCount then
      ({ response with tooLarge := true }, 0)
    else ({ response with body := response.body ++ chunk.data.take byteCount }, byteCount)

/-- The write callbacks of a transfer; it stops at the first that does
not take its whole chunk. -/
def receiveChunks : ResponseBuffer → List Chunk → ResponseBuffer
  | response, [] => response
  | response, chunk :: rest =>
      let written := appendResponse response chunk
      if written.2 = chunk.size * chunk.count then receiveChunks written.1 rest else written.1

/-- What the HTTP library answers: some call of it failed, with the text
`discover_sensor` puts into its error, or the transfer went through. -/
inductive Transfer where
  | failed (message : String)
  | completed (status : Int) (chunks : List Chunk)
  deriving DecidableEq

/-- `timeout_milliseconds` of `discovery.cpp`. -/
def timeoutMilliseconds (timeout : Binary64) (name : String) : Except Exception Int :=
  let bad := Exception.discovery (name ++ " must be finite, positive, and representable")
  if timeout.isFinite = false ∨ timeout.value ≤ 0 then .error bad
  else if (longMax : ℤ) < ⌈timeout.value * 1000⌉ then .error bad
  else .ok ⌈timeout.value * 1000⌉

/-- `validate_options`. -/
def validateOptions (config : Config) : Except Exception Unit := do
  if isBlank config.sensorHost then
    throw (.discovery "sensor_host must not be blank")
  if config.httpPort < 1 ∨ 65535 < config.httpPort then
    throw (.discovery "http_port must be in the range 1..65535")
  let _ ← timeoutMilliseconds config.configurationConnectTimeout "connect_timeout"
  let _ ← timeoutMilliseconds config.configurationTimeout "total_timeout"

/-- `discover_sensor`. -/
def discoverSensor (P : Platform) (config : Config) (transfer : Transfer) :
    Except Exception SensorConfiguration := do
  validateOptions config
  match transfer with
  | .failed message => throw (.discovery message)
  | .completed status chunks =>
      let response := receiveChunks {} chunks
      if response.tooLarge then
        throw (.discovery "sensor configuration response exceeds 65536 bytes")
      if status ≠ 200 then
        throw (.discovery ("sensor configuration request returned HTTP " ++ toString status))
      parseSensorConfiguration P response.body

/-- `Client::Impl::configuration_for_session`. -/
def configurationForSession (P : Platform) (config : Config) (transfer : Transfer) :
    Except Exception SensorConfiguration :=
  match config.calibrationOverride with
  | some calibration =>
      .ok { productName := [], calibration := calibration, source := .override, revision := 1 }
  | none => discoverSensor P config transfer

end PyNetFT.Core
