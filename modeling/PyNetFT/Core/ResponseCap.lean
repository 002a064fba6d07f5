/-
PyNetFT.Core.ResponseCap — the 65536-byte cap of the HTTP response.

`append_response` computes with `std::size_t`: a product that is guarded
by a division, and a subtraction from the limit that nothing guards. Here
it is on 64-bit words (`appendWords`), where both could wrap, beside the
`appendResponse` of `PyNetFT.Core.XmlConfig` on natural numbers. The
buffer never grows over the limit, so the subtraction does not wrap, and
the words say what the numbers say (`appendWords_spec`). A transfer then
collects its chunks up to the limit (`PyNetFT.Lib.CappedAppend`), and how
the server's answer was cut into chunks makes no difference.
-/
import PyNetFT.Core.XmlConfig
import PyNetFT.Lib.CappedAppend

namespace PyNetFT.Core

open PyNetFT.Lib

/-! ## The write callback on words -/

/-- One call of the write callback: `data` has `size * count` bytes. -/
structure WriteCall where
  size : UInt64
  count : UInt64
  data : View
  exact : data.length = size.toNat * count.toNat

/-- `ResponseBuffer`, with the flag of a failed allocation. -/
structure WordBuffer extends ResponseBuffer where
  writeFailed : Bool := false
  deriving DecidableEq

/-- `std::numeric_limits<std::size_t>::max()`. -/
def sizeMaxWord : UInt64 := 0xffffffffffffffff

/-- `kMaximumResponseBytes`. -/
def maximumResponseWord : UInt64 := 65536

/-- `kMaximumResponseBytes - response.body.size()`. -/
def ResponseBuffer.room (response : ResponseBuffer) : UInt64 :=
  maximumResponseWord - UInt64.ofNat response.body.length

/-- `size != 0 && count > max / size`. -/
def WriteCall.wraps (call : WriteCall) : Prop :=
  call.size ≠ 0 ∧ sizeMaxWord / call.size < call.count

instance (call : WriteCall) : Decidable call.wraps := inferInstanceAs (Decidable (_ ∧ _))

/-- `append_response`, with its return value; `allocates` says whether
the body can grow. -/
def appendWords (allocates : Bool) (response : WordBuffer) (call : WriteCall) :
    WordBuffer × UInt64 :=
  if call.wraps then ({ response with tooLarge := true }, 0)
  else
    let byteCount := call.size * call.count
    if response.room < byteCount then ({ response with tooLarge := true }, 0)
    else if allocates then
      ({ response with body := response.body ++ call.data.take byteCount.toNat }, byteCount)
    else ({ response with writeFailed := true }, 0)

/-- A transfer in which every allocation succeeds. -/
def receiveWords : WordBuffer → List WriteCall → WordBuffer
  | response, [] => response
  | response, call :: rest =>
      let written := appendWords true response call
      if written.2.toNat = call.data.length then receiveWords written.1 rest else written.1

/-! ## Words and numbers -/

section Words

variable {call : WriteCall} {response : WordBuffer}

/-- The guard is exact. -/
theorem WriteCall.wraps_iff (call : WriteCall) : call.wraps ↔ 2 ^ 64 ≤ call.data.length := by
  have hmax : sizeMaxWord.toNat = 2 ^ 64 - 1 := rfl
  have hcount := call.count.toNat_lt
  rw [call.exact, WriteCall.wraps]
  rcases Nat.eq_zero_or_pos call.size.toNat with hzero | hpos
  · have hsize : call.size = 0 := UInt64.toNat_inj.mp hzero
    simp [hsize]
  · have hsize : call.size ≠ 0 := by
      intro h
      rw [h] at hpos
      exact Nat.lt_irrefl 0 hpos
    rw [UInt64.lt_iff_toNat_lt, UInt64.toNat_div, hmax, Nat.div_lt_iff_lt_mul hpos,
      Nat.mul_comm call.count.toNat]
    constructor
    · rintro ⟨-, h⟩
      omega
    · intro h
      exact ⟨hsize, by omega⟩

theorem WriteCall.byteCount (h : ¬ call.wraps) :
    (call.size * call.count).toNat = call.data.length := by
  rw [call.wraps_iff, not_le, call.exact] at h
  rw [UInt64.toNat_mul, Nat.mod_eq_of_lt h, call.exact]

/-- Below the limit the subtraction does not wrap. -/
theorem ResponseBuffer.room_toNat {response : ResponseBuffer}
    (h : response.body.length ≤ maximumResponseBytes) :
    response.room.toNat = maximumResponseBytes - response.body.length := by
  have hlength : (UInt64.ofNat response.body.length).toNat = response.body.length := by
    rw [UInt64.toNat_ofNat']
    exact Nat.mod_eq_of_lt (h.trans_lt (by decide))
  have hle : UInt64.ofNat response.body.length ≤ maximumResponseWord := by
    rw [UInt64.le_iff_toNat_le, hlength]
    exact h
  rw [ResponseBuffer.room, UInt64.toNat_sub_of_le _ _ hle, hlength]
  rfl

/-- What a refused call leaves, and one that is taken: the pairs as a
whole, before their parts are looked at. -/
theorem appendWords_refused (h : call.wraps ∨ response.room < call.size * call.count)
    (allocates : Bool) :
    appendWords allocates response call = ({ response with tooLarge := true }, 0) := by
  unfold appendWords
  by_cases hwraps : call.wraps
  · rw [if_pos hwraps]
  · rw [if_neg hwraps]
    dsimp only
    rw [if_pos (h.resolve_left hwraps)]

theorem appendWords_taken (hwraps : ¬ call.wraps)
    (hfits : ¬ response.room < call.size * call.count) :
    appendWords true response call =
      ({ response with body := response.body ++ call.data }, call.size * call.count) := by
  unfold appendWords
  rw [if_neg hwraps]
  dsimp only
  rw [if_neg hfits, if_pos rfl, WriteCall.byteCount hwraps, List.take_length]

/-- One write callback below the limit: the chunk is taken whole if it
still fits, and refused otherwise. -/
theorem appendWords_spec (h : response.body.length ≤ maximumResponseBytes) (call : WriteCall) :
    response.body.length + call.data.length ≤ maximumResponseBytes ∧
        (appendWords true response call).1 =
          { response with body := response.body ++ call.data } ∧
        (appendWords true response call).2.toNat = call.data.length ∨
      maximumResponseBytes < response.body.length + call.data.length ∧
        (appendWords true response call).1 = { response with tooLarge := true } ∧
        (appendWords true response call).2.toNat ≠ call.data.length := by
  have hroom := ResponseBuffer.room_toNat h
  have hlimit : maximumResponseBytes < 2 ^ 64 := by decide
  by_cases hwraps : call.wraps
  · have hlarge := call.wraps_iff.mp hwraps
    rw [appendWords_refused (.inl hwraps)]
    exact .inr ⟨by omega, rfl, by rw [UInt64.toNat_zero]; omega⟩
  · have hcount := WriteCall.byteCount hwraps
    have hfits : response.room < call.size * call.count ↔
        maximumResponseBytes - response.body.length < call.data.length := by
      rw [UInt64.lt_iff_toNat_lt, hroom, hcount]
    by_cases hover : response.room < call.size * call.count
    · rw [appendWords_refused (.inr hover)]
      rw [hfits] at hover
      exact .inr ⟨by omega, rfl, by rw [UInt64.toNat_zero]; omega⟩
    · rw [appendWords_taken hwraps hover]
      rw [hfits] at hover
      exact .inl ⟨by omega, rfl, hcount⟩

/-! ## A transfer -/

/-- A transfer collects its chunks up to the limit. -/
theorem receiveWords_collect (calls : List WriteCall)
    (h : response.body.length ≤ maximumResponseBytes) :
    receiveWords response calls =
      { response with
        body := (collect maximumResponseBytes response.body (calls.map WriteCall.data)).1
        tooLarge := response.tooLarge ||
          (collect maximumResponseBytes response.body (calls.map WriteCall.data)).2 } := by
  induction calls generalizing response with
  | nil => simp [receiveWords, collect]
  | cons call calls ih =>
    rw [receiveWords, List.map_cons, collect]
    rcases appendWords_spec h call with ⟨hfits, hbuffer, hreturned⟩ |
      ⟨hover, hbuffer, hreturned⟩
    · rw [if_pos hreturned, if_pos hfits, hbuffer, ih (by rw [List.length_append]; exact hfits)]
    · rw [if_neg hreturned, if_neg (by omega), hbuffer]
      simp

theorem receiveWords_length (calls : List WriteCall)
    (h : response.body.length ≤ maximumResponseBytes) :
    (receiveWords response calls).body.length ≤ maximumResponseBytes := by
  rw [receiveWords_collect calls h]
  exact collect_length_le h

/-- The call as the natural numbers see it. -/
def WriteCall.chunk (call : WriteCall) : Chunk := ⟨call.size.toNat, call.count.toNat, call.data⟩

theorem appendResponse_chunk (h : response.body.length ≤ maximumResponseBytes) :
    appendResponse response.toResponseBuffer call.chunk =
      ((appendWords true response call).1.toResponseBuffer,
        (appendWords true response call).2.toNat) := by
  have hguard : (call.chunk.size ≠ 0 ∧ sizeMax / call.chunk.size < call.chunk.count) ↔
      call.wraps := by
    have hmax : sizeMaxWord.toNat = sizeMax := rfl
    rw [WriteCall.wraps, UInt64.lt_iff_toNat_lt, UInt64.toNat_div, hmax, ← UInt64.toNat_inj.ne]
    rfl
  unfold appendResponse
  by_cases hwraps : call.wraps
  · rw [if_pos (hguard.mpr hwraps), appendWords_refused (.inl hwraps)]
    rfl
  · have hcount := WriteCall.byteCount hwraps
    have hroom := ResponseBuffer.room_toNat h
    have hchunk : call.chunk.size * call.chunk.count = call.data.length := call.exact.symm
    have hfits : response.room < call.size * call.count ↔
        maximumResponseBytes - response.body.length < call.data.length := by
      rw [UInt64.lt_iff_toNat_lt, hroom, hcount]
    rw [if_neg (hguard.not.mpr hwraps)]
    dsimp only
    rw [hchunk]
    by_cases hover : response.room < call.size * call.count
    · rw [appendWords_refused (.inr hover), if_pos (hfits.mp hover)]
      rfl
    · have hdata : call.chunk.data.take call.data.length = call.data := List.take_length
      rw [appendWords_taken hwraps hover, if_neg (hfits.not.mp hover), hdata, hcount]

/-- A transfer on words is a transfer on numbers. -/
theorem receiveChunks_of_calls (calls : List WriteCall)
    (h : response.body.length ≤ maximumResponseBytes) :
    receiveChunks response.toResponseBuffer (calls.map WriteCall.chunk) =
      (receiveWords response calls).toResponseBuffer := by
  induction calls generalizing response with
  | nil => rfl
  | cons call calls ih =>
    have hchunk : call.chunk.size * call.chunk.count = call.data.length := call.exact.symm
    rw [List.map_cons, receiveChunks, receiveWords, appendResponse_chunk h]
    dsimp only
    rw [hchunk]
    rcases appendWords_spec h call with ⟨hfits, hbuffer, hreturned⟩ | ⟨-, -, hreturned⟩
    · rw [if_pos hreturned, if_pos hreturned]
      exact ih (by rw [hbuffer, List.length_append]; exact hfits)
    · rw [if_neg hreturned, if_neg hreturned]

end Words

/-! ## The cap -/

/-- The bytes the server sends. -/
def stream (calls : List WriteCall) : View := (calls.map WriteCall.data).flatten

theorem stream_append (front back : List WriteCall) :
    stream (front ++ back) = stream front ++ stream back := by
  rw [stream, List.map_append, List.flatten_append]
  rfl

theorem receiveWords_empty (calls : List WriteCall) :
    receiveWords {} calls =
      { body := (collect maximumResponseBytes [] (calls.map WriteCall.data)).1
        tooLarge := (collect maximumResponseBytes [] (calls.map WriteCall.data)).2
        writeFailed := false } :=
  receiveWords_collect calls (Nat.zero_le _)

/-- A stream within the limit is taken whole. -/
theorem receiveWords_of_le {calls : List WriteCall}
    (h : (stream calls).length ≤ maximumResponseBytes) :
    receiveWords {} calls = { body := stream calls } := by
  rw [receiveWords_empty, collect_of_le (by rw [List.length_nil, Nat.zero_add]; exact h)]
  rfl

theorem receiveWords_of_lt {calls : List WriteCall}
    (h : maximumResponseBytes < (stream calls).length) :
    (receiveWords {} calls).tooLarge = true := by
  rw [receiveWords_empty]
  exact collect_of_lt (Nat.zero_le _) (by rw [List.length_nil, Nat.zero_add]; exact h)

/-- Each call is taken exactly if it fits behind what is there. -/
theorem appendWords_taken_iff {response : WordBuffer} {call : WriteCall}
    (h : response.body.length ≤ maximumResponseBytes) :
    (appendWords true response call).2.toNat = call.data.length ↔
      response.body.length + call.data.length ≤ maximumResponseBytes := by
  rcases appendWords_spec h call with ⟨hfits, -, hreturned⟩ | ⟨hover, -, hreturned⟩
  · exact iff_of_true hreturned hfits
  · exact iff_of_false hreturned (by omega)

/-- The calls up to the first refused one. -/
theorem receiveWords_accepted (calls : List WriteCall) :
    ∃ accepted rest, calls = accepted ++ rest ∧
      (stream accepted).length ≤ maximumResponseBytes ∧
      receiveWords {} calls =
        { body := stream accepted, tooLarge := decide (rest ≠ []), writeFailed := false } ∧
      ∀ call back, rest = call :: back →
        maximumResponseBytes < (stream accepted).length + call.data.length := by
  obtain ⟨chunks, others, hsplit, hcollect, hrefused⟩ :=
    collect_accepted maximumResponseBytes [] (calls.map WriteCall.data)
  obtain ⟨accepted, rest, rfl, rfl, rfl⟩ := List.map_eq_append_iff.mp hsplit
  have hreceive := receiveWords_empty (accepted ++ rest)
  have hlength : (receiveWords {} (accepted ++ rest)).body.length ≤ maximumResponseBytes :=
    receiveWords_length _ (Nat.zero_le _)
  rw [hcollect] at hreceive
  rw [hreceive] at hlength
  refine ⟨accepted, rest, rfl, hlength, ?_, fun call back hrest => ?_⟩
  · rw [hreceive]
    cases rest <;> rfl
  · exact hrefused call.data (back.map WriteCall.data) (by rw [hrest, List.map_cons])

theorem discoverSensor_of_calls (P : Platform) (config : Config) (status : Int)
    {calls calls' : List WriteCall}
    (h : (receiveWords {} calls).tooLarge = true ∧ (receiveWords {} calls').tooLarge = true ∨
      receiveWords {} calls = receiveWords {} calls') :
    discoverSensor P config (.completed status (calls.map WriteCall.chunk)) =
      discoverSensor P config (.completed status (calls'.map WriteCall.chunk)) := by
  have hchunks (calls : List WriteCall) :
      receiveChunks ({} : WordBuffer).toResponseBuffer (calls.map WriteCall.chunk) =
        (receiveWords {} calls).toResponseBuffer :=
    receiveChunks_of_calls calls (Nat.zero_le _)
  have hwords := hchunks calls
  have hwords' := hchunks calls'
  unfold discoverSensor
  dsimp only at hwords hwords' ⊢
  rw [hwords, hwords']
  rcases h with ⟨hlarge, hlarge'⟩ | hsame
  · rw [if_pos hlarge, if_pos hlarge']
    rfl
  · rw [hsame]

/-- **The response cap is exact, and chunking does not matter.** Whatever
calls the transfer makes: whenever one is made the body is within the
limit, the subtraction from the limit gives the bytes that are left, the
product is a length only if it is the number of bytes, and the call is
taken exactly if its bytes fit. The body is what the calls before the
first refused one brought; a call was refused exactly when `too_large` is
set. A stream is taken whole up to 65536 bytes and refused above, in
whatever chunks it comes, and `discover_sensor` makes the same of it. -/
theorem response_cap_exact (P : Platform) (config : Config) :
    (∀ front call, (receiveWords {} front).body.length ≤ maximumResponseBytes ∧
      (receiveWords {} front).room.toNat
        = maximumResponseBytes - (receiveWords {} front).body.length ∧
      (¬ WriteCall.wraps call →
        (call.size * call.count).toNat = call.size.toNat * call.count.toNat) ∧
      ((appendWords true (receiveWords {} front) call).2.toNat = call.data.length ↔
        (receiveWords {} front).body.length + call.data.length ≤ maximumResponseBytes)) ∧
    (∀ calls, ∃ accepted rest, calls = accepted ++ rest ∧
      receiveWords {} calls =
        { body := stream accepted, tooLarge := decide (rest ≠ []), writeFailed := false } ∧
      (∀ front call back, accepted = front ++ call :: back →
        (appendWords true (receiveWords {} front) call).2.toNat = call.data.length) ∧
      ∀ call back, rest = call :: back →
        (appendWords true (receiveWords {} accepted) call).2.toNat ≠ call.data.length) ∧
    ∀ calls calls', stream calls = stream calls' →
      ((stream calls).length ≤ maximumResponseBytes →
        receiveWords {} calls = { body := stream calls } ∧
        receiveWords {} calls' = { body := stream calls }) ∧
      (maximumResponseBytes < (stream calls).length →
        (receiveWords {} calls).tooLarge = true ∧ (receiveWords {} calls').tooLarge = true) ∧
      ∀ status, discoverSensor P config (.completed status (calls.map WriteCall.chunk)) =
        discoverSensor P config (.completed status (calls'.map WriteCall.chunk)) := by
  have hlimit : ∀ calls, (receiveWords {} calls).body.length ≤ maximumResponseBytes :=
    fun calls => receiveWords_length calls (Nat.zero_le _)
  refine ⟨fun front call => ?_, fun calls => ?_, fun calls calls' hstream => ?_⟩
  · refine ⟨hlimit front, ResponseBuffer.room_toNat (hlimit front), fun hwraps => ?_,
      appendWords_taken_iff (hlimit front)⟩
    rw [WriteCall.byteCount hwraps, call.exact]
  · obtain ⟨accepted, rest, hsplit, hlength, hreceive, hrefused⟩ := receiveWords_accepted calls
    refine ⟨accepted, rest, hsplit, hreceive, fun front call back haccepted => ?_,
      fun call back hrest => ?_⟩
    · rw [haccepted, stream_append, List.length_append] at hlength
      have hcall : call.data.length ≤ (stream (call :: back)).length := by
        rw [stream, List.map_cons, List.flatten_cons, List.length_append]
        exact Nat.le_add_right _ _
      rw [appendWords_taken_iff (hlimit front), receiveWords_of_le (by omega)]
      dsimp only
      omega
    · rw [Ne, appendWords_taken_iff (hlimit accepted), receiveWords_of_le hlength, not_le]
      exact hrefused call back hrest
  · have hfits : (stream calls).length ≤ maximumResponseBytes →
        receiveWords {} calls = { body := stream calls } ∧
        receiveWords {} calls' = { body := stream calls } := fun h =>
      ⟨receiveWords_of_le h, hstream ▸ receiveWords_of_le (hstream ▸ h)⟩
    have hover : maximumResponseBytes < (stream calls).length →
        (receiveWords {} calls).tooLarge = true ∧ (receiveWords {} calls').tooLarge = true :=
      fun h => ⟨receiveWords_of_lt h, receiveWords_of_lt (hstream ▸ h)⟩
    refine ⟨hfits, hover, fun status => discoverSensor_of_calls P config status ?_⟩
    rcases Nat.lt_or_ge maximumResponseBytes (stream calls).length with h | h
    · exact .inl (hover h)
    · exact .inr ((hfits h).1.trans (hfits h).2.symm)

end PyNetFT.Core
