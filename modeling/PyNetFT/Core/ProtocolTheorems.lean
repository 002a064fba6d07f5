/-
PyNetFT.Core.ProtocolTheorems — the wire format is a bijection.

The other end of the wire is written here the way the fake sensor of the
integration tests writes it: `struct.Struct(">III6i")` for a record and
`struct.Struct(">HHI")` for a request. `decodeRecord` inverts the first
in both directions; `unpackRequest` reads back every request.

The source refuses a null pointer as well; a byte list has no null.
-/
import PyNetFT.Core.Protocol
import PyNetFT.Lib.BigEndian
import Mathlib.Data.List.GetD
import Mathlib.Tactic.IntervalCases

namespace PyNetFT.Core

open PyNetFT.Lib

/-! ## The sensor's side of the wire (`fake_sensor.py`) -/

/-- `struct` format `I`. -/
def packU32 (value : UInt32) : List UInt8 := BigEndian.ofNat 4 value.toNat

/-- `struct` format `i`: two's complement. -/
def packI32 (value : Int32) : List UInt8 := BigEndian.ofNat 4 (value.toInt % 2 ^ 32).toNat

/-- `record`: the fields under `">III6i"`. -/
def RawRecord.pack (r : RawRecord) : List UInt8 :=
  packU32 r.rdtSequence ++ packU32 r.ftSequence ++ packU32 r.status ++
    packI32 r.fx ++ packI32 r.fy ++ packI32 r.fz ++
    packI32 r.tx ++ packI32 r.ty ++ packI32 r.tz

/-- `unpack` under `">HHI"`, which takes exactly eight bytes. -/
def unpackRequest (bytes : List UInt8) : Option (Nat × Nat × Nat) :=
  if bytes.length = 8 then
    some (BigEndian.toNat (bytes.take 2), BigEndian.toNat ((bytes.drop 2).take 2),
      BigEndian.toNat (bytes.drop 4))
  else none

/-- The values of signed type `read_i32` computes on its way, the returned one last. -/
def signedSteps (value : UInt32) : List Int :=
  if value ≤ 0x7fffffff then [(value.toNat : Int)]
  else
    [((~~~value).toNat : Int), -((~~~value).toNat : Int), -((~~~value).toNat : Int) - 1]

/-! ## One word -/

theorem packU32_injective {v w : UInt32} (h : packU32 v = packU32 w) : v = w := by
  have hv : v.toNat < 256 ^ 4 := v.toNat_lt
  have hw : w.toNat < 256 ^ 4 := w.toNat_lt
  exact UInt32.toNat_inj.mp (BigEndian.ofNat_injective hv hw h)

theorem packI32_injective {v w : Int32} (h : packI32 v = packI32 w) : v = w := by
  have hv := Int32.le_toInt v
  have hv' := Int32.toInt_lt v
  have hw := Int32.le_toInt w
  have hw' := Int32.toInt_lt w
  have hmod := BigEndian.ofNat_injective (by omega) (by omega) h
  exact Int32.toInt_inj.mp (by omega)

/-- The shifts and ors of `read_u32` are base-256 arithmetic. -/
theorem readU32_toNat (data : List UInt8) (offset : Nat) :
    (readU32 data offset).toNat =
      BigEndian.toNat [data.getD offset 0, data.getD (offset + 1) 0, data.getD (offset + 2) 0,
        data.getD (offset + 3) 0] := by
  have h₀ := (data.getD offset 0).toNat_lt
  have h₁ := (data.getD (offset + 1) 0).toNat_lt
  have h₂ := (data.getD (offset + 2) 0).toNat_lt
  have h₃ := (data.getD (offset + 3) 0).toNat_lt
  simp only [readU32, BigEndian.toNat, List.foldl_cons, List.foldl_nil, UInt32.toNat_or,
    UInt32.toNat_shiftLeft, UInt8.toNat_toUInt32, UInt32.reduceToNat, Nat.reduceMod]
  generalize (data.getD offset 0).toNat = a at *
  generalize (data.getD (offset + 1) 0).toNat = b at *
  generalize (data.getD (offset + 2) 0).toNat = c at *
  generalize (data.getD (offset + 3) 0).toNat = d at *
  -- a shifted value and one below the shift have no bit in common
  have hcd : c <<< 8 ||| d = c * 2 ^ 8 + d := by
    rw [← Nat.shiftLeft_add_eq_or_of_lt h₃, Nat.shiftLeft_eq]
  have hbcd : b <<< 16 ||| (c * 2 ^ 8 + d) = b * 2 ^ 16 + (c * 2 ^ 8 + d) := by
    rw [← Nat.shiftLeft_add_eq_or_of_lt (by omega), Nat.shiftLeft_eq]
  have habcd : a <<< 24 ||| (b * 2 ^ 16 + (c * 2 ^ 8 + d))
      = a * 2 ^ 24 + (b * 2 ^ 16 + (c * 2 ^ 8 + d)) := by
    rw [← Nat.shiftLeft_add_eq_or_of_lt (by omega), Nat.shiftLeft_eq]
  have ha : a <<< 24 % 2 ^ 32 = a <<< 24 := Nat.mod_eq_of_lt (by rw [Nat.shiftLeft_eq]; omega)
  have hb : b <<< 16 % 2 ^ 32 = b <<< 16 := Nat.mod_eq_of_lt (by rw [Nat.shiftLeft_eq]; omega)
  have hc : c <<< 8 % 2 ^ 32 = c <<< 8 := Nat.mod_eq_of_lt (by rw [Nat.shiftLeft_eq]; omega)
  rw [ha, hb, hc, Nat.or_assoc, Nat.or_assoc, hcd, hbcd, habcd]
  omega

/-- The four bytes of a word, as `read_u32` takes them. -/
theorem word_eq {data : List UInt8} {offset : Nat} (h : offset + 4 ≤ data.length) :
    [data.getD offset 0, data.getD (offset + 1) 0, data.getD (offset + 2) 0,
      data.getD (offset + 3) 0] = (data.drop offset).take 4 := by
  rw [List.getD_eq_getElem _ _ (show offset < data.length by omega),
    List.getD_eq_getElem _ _ (show offset + 1 < data.length by omega),
    List.getD_eq_getElem _ _ (show offset + 2 < data.length by omega),
    List.getD_eq_getElem _ _ (show offset + 3 < data.length by omega)]
  apply List.ext_getElem
  · simp
    omega
  · intro i hi _
    have hi : i < 4 := by simpa using hi
    interval_cases i <;> simp

theorem pack_readU32 {data : List UInt8} {offset : Nat} (h : offset + 4 ≤ data.length) :
    packU32 (readU32 data offset) = (data.drop offset).take 4 := by
  have hwidth : ((data.drop offset).take 4).length = 4 := by
    simp
    omega
  have hround := BigEndian.ofNat_toNat ((data.drop offset).take 4)
  rw [hwidth] at hround
  rw [packU32, readU32_toNat, word_eq h, hround]

/-- The complement-and-negate arithmetic gives the two's complement value. -/
theorem signedValue_mod (value : UInt32) : signedValue value % 2 ^ 32 = value.toNat := by
  have hmax : (0x7fffffff : UInt32).toNat = 2147483647 := rfl
  have hlt := UInt32.toNat_lt value
  simp only [signedValue]
  split
  · omega
  · have hnot : (~~~value).toNat = 2 ^ 32 - 1 - value.toNat := by
      simp [UInt32.toNat_not, UInt32.size]
    omega

/-- What `read_i32` returns is what it computed. -/
theorem readI32_toInt (data : List UInt8) (offset : Nat) :
    (readI32 data offset).toInt = signedValue (readU32 data offset) := by
  obtain ⟨hlo, hhi⟩ := signedValue_range (readU32 data offset)
  exact Int32.toInt_ofInt_of_le hlo hhi

theorem pack_readI32 {data : List UInt8} {offset : Nat} (h : offset + 4 ≤ data.length) :
    packI32 (readI32 data offset) = (data.drop offset).take 4 := by
  rw [packI32, readI32_toInt, signedValue_mod]
  exact pack_readU32 h

/-- None of the signed operations of `read_i32` overflows. -/
theorem signedSteps_range (value : UInt32) :
    (signedSteps value).getLast? = some (signedValue value) ∧
      ∀ x ∈ signedSteps value, -2 ^ 31 ≤ x ∧ x < 2 ^ 31 := by
  have hmax : (0x7fffffff : UInt32).toNat = 2147483647 := rfl
  have hlt := UInt32.toNat_lt value
  simp only [signedSteps, signedValue]
  split
  · rename_i h
    rw [UInt32.le_iff_toNat_le] at h
    refine ⟨rfl, fun x hx => ?_⟩
    simp only [List.mem_singleton] at hx
    omega
  · rename_i h
    rw [UInt32.le_iff_toNat_le] at h
    have hnot : (~~~value).toNat = 2 ^ 32 - 1 - value.toNat := by
      simp [UInt32.toNat_not, UInt32.size]
    refine ⟨rfl, fun x hx => ?_⟩
    simp only [List.mem_cons, List.not_mem_nil, or_false] at hx
    omega

/-! ## Records -/

@[simp] theorem packU32_length (value : UInt32) : (packU32 value).length = 4 :=
  BigEndian.ofNat_length 4 _

@[simp] theorem packI32_length (value : Int32) : (packI32 value).length = 4 :=
  BigEndian.ofNat_length 4 _

theorem RawRecord.pack_length (r : RawRecord) : r.pack.length = 36 := by
  simp [RawRecord.pack]

/-- Every field has its own four bytes. -/
theorem RawRecord.pack_injective {r q : RawRecord} (h : r.pack = q.pack) : r = q := by
  simp only [RawRecord.pack] at h
  obtain ⟨h, htz⟩ := List.append_inj' h (by simp)
  obtain ⟨h, hty⟩ := List.append_inj' h (by simp)
  obtain ⟨h, htx⟩ := List.append_inj' h (by simp)
  obtain ⟨h, hfz⟩ := List.append_inj' h (by simp)
  obtain ⟨h, hfy⟩ := List.append_inj' h (by simp)
  obtain ⟨h, hfx⟩ := List.append_inj' h (by simp)
  obtain ⟨h, hstatus⟩ := List.append_inj' h (by simp)
  obtain ⟨hrdt, hft⟩ := List.append_inj' h (by simp)
  cases r
  cases q
  rw [RawRecord.mk.injEq]
  exact ⟨packU32_injective hrdt, packU32_injective hft, packU32_injective hstatus,
    packI32_injective hfx, packI32_injective hfy, packI32_injective hfz,
    packI32_injective htx, packI32_injective hty, packI32_injective htz⟩

/-- The bytes before an offset and the word there. -/
theorem take_append_word (data : List UInt8) (offset : Nat) :
    data.take offset ++ (data.drop offset).take 4 = data.take (offset + 4) :=
  (List.take_add ..).symm

/-- Every accepted datagram is the encoding of the record read from it. -/
theorem decodeRecord_pack {data : List UInt8} (h : data.length = 36) :
    ∃ r, decodeRecord data = .ok r ∧ r.pack = data := by
  refine ⟨_, by rw [decodeRecord, if_neg (not_not.mpr h)], ?_⟩
  rw [RawRecord.pack, pack_readU32 (by omega), pack_readU32 (by omega), pack_readU32 (by omega),
    pack_readI32 (by omega), pack_readI32 (by omega), pack_readI32 (by omega),
    pack_readI32 (by omega), pack_readI32 (by omega), pack_readI32 (by omega)]
  have hfirst : (data.drop 0).take 4 = data.take 4 := rfl
  rw [hfirst]
  simp only [take_append_word]
  exact List.take_of_length_le h.le

theorem decode_pack (r : RawRecord) : decodeRecord r.pack = .ok r := by
  obtain ⟨q, hq, hpack⟩ := decodeRecord_pack r.pack_length
  rw [hq, RawRecord.pack_injective hpack]

/-! ## Requests -/

theorem Command.value_injective {c d : Command} (h : c.value = d.value) : c = d := by
  revert h
  cases c <;> cases d <;> decide

theorem unpack_encodeRequest (command : Command) (count : UInt32) :
    unpackRequest (encodeRequest command count)
      = some (0x1234, command.value.toNat, count.toNat) := by
  have hcount := count.toNat_lt
  have hvalue := command.value.toNat_lt
  simp only [unpackRequest, encodeRequest, BigEndian.toNat, List.length_cons, List.length_nil,
    List.take_succ_cons, List.take_zero, List.drop_succ_cons, List.drop_zero, List.foldl_cons,
    List.foldl_nil, if_true]
  simp
  omega

/-- Records and datagrams of 36 bytes correspond one to one; all other
lengths are refused; every request reads back as what was asked. -/
theorem rdt_codec_bijective :
    (∀ r : RawRecord, r.pack.length = 36 ∧ decodeRecord r.pack = .ok r) ∧
    (∀ data : List UInt8, data.length = 36 → ∃ r, decodeRecord data = .ok r ∧ r.pack = data) ∧
    (∀ value : UInt32, (signedSteps value).getLast? = some (signedValue value) ∧
      ∀ x ∈ signedSteps value, -2 ^ 31 ≤ x ∧ x < 2 ^ 31) ∧
    (∀ (data : List UInt8) (offset : Nat),
      (readI32 data offset).toInt = signedValue (readU32 data offset)) ∧
    (∀ data : List UInt8, data.length ≠ 36 → decodeRecord data =
      .error ("RDT record must be exactly 36 bytes, received " ++ toString data.length)) ∧
    (∀ (command : Command) (count : UInt32), unpackRequest (encodeRequest command count)
      = some (0x1234, command.value.toNat, count.toNat)) ∧
    (∀ (c d : Command) (m n : UInt32), encodeRequest c m = encodeRequest d n → c = d ∧ m = n) := by
  refine ⟨fun r => ⟨r.pack_length, decode_pack r⟩, fun _ => decodeRecord_pack, signedSteps_range,
    readI32_toInt, fun data h => if_pos h, unpack_encodeRequest, ?_⟩
  intro c d m n h
  have hunpack := congrArg unpackRequest h
  rw [unpack_encodeRequest, unpack_encodeRequest, Option.some.injEq, Prod.mk.injEq,
    Prod.mk.injEq] at hunpack
  obtain ⟨-, hvalue, hcount⟩ := hunpack
  exact ⟨Command.value_injective (UInt16.toNat_inj.mp hvalue), UInt32.toNat_inj.mp hcount⟩

end PyNetFT.Core
