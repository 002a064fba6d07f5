/-
PyNetFT.Core.Protocol — the RDT wire format (`detail/protocol.cpp`).

A datagram is a list of bytes. `decodeRecord` accepts exactly 36 of them:
three unsigned and six signed big-endian 32-bit fields at fixed offsets.
The signed reader keeps the source's complement-and-negate arithmetic.
-/
import Mathlib.Algebra.Group.Int.Defs
import Mathlib.Data.Nat.Basic

namespace PyNetFT.Core

inductive Command where
  | stopStreaming | startRealtime | startBuffered | resetConditionLatch | setSoftwareBias
  deriving DecidableEq

/-- The `std::uint16_t` value of a command. -/
def Command.value : Command → UInt16
  | .stopStreaming => 0x0000
  | .startRealtime => 0x0002
  | .startBuffered => 0x0003
  | .resetConditionLatch => 0x0041
  | .setSoftwareBias => 0x0042

structure RawRecord where
  rdtSequence : UInt32
  ftSequence : UInt32
  status : UInt32
  fx : Int32
  fy : Int32
  fz : Int32
  tx : Int32
  ty : Int32
  tz : Int32
  deriving DecidableEq

/-- `read_u32` at an offset; the caller has checked the length. -/
def readU32 (data : List UInt8) (offset : Nat) : UInt32 :=
  (data.getD offset 0).toUInt32 <<< 24 ||| (data.getD (offset + 1) 0).toUInt32 <<< 16 |||
    (data.getD (offset + 2) 0).toUInt32 <<< 8 ||| (data.getD (offset + 3) 0).toUInt32

/-- The arithmetic of `read_i32`, before the result is stored: above
`0x7fffffff` it is `-static_cast<int32_t>(~value) - 1`. -/
def signedValue (value : UInt32) : Int :=
  if value ≤ 0x7fffffff then (value.toNat : Int)
  else -((~~~value).toNat : Int) - 1

/-- `read_i32`; `signedValue_range` says that storing loses nothing. -/
def readI32 (data : List UInt8) (offset : Nat) : Int32 :=
  Int32.ofInt (signedValue (readU32 data offset))

/-- `encode_request`. -/
def encodeRequest (command : Command) (count : UInt32 := 0) : List UInt8 :=
  let value := command.value
  [0x12, 0x34, (value >>> 8).toUInt8, value.toUInt8,
   (count >>> 24).toUInt8, (count >>> 16).toUInt8, (count >>> 8).toUInt8, count.toUInt8]

/-- `decode_record`; the error is the text of the `ProtocolError`. -/
def decodeRecord (data : List UInt8) : Except String RawRecord :=
  if data.length ≠ 36 then
    .error ("RDT record must be exactly 36 bytes, received " ++ toString data.length)
  else
    .ok ⟨readU32 data 0, readU32 data 4, readU32 data 8,
      readI32 data 12, readI32 data 16, readI32 data 20,
      readI32 data 24, readI32 data 28, readI32 data 32⟩

/-- The signed value of a word is in the `int32_t` range. -/
theorem signedValue_range (value : UInt32) :
    -2 ^ 31 ≤ signedValue value ∧ signedValue value < 2 ^ 31 := by
  have hmax : (0x7fffffff : UInt32).toNat = 2147483647 := rfl
  have hlt := UInt32.toNat_lt value
  simp only [signedValue]
  split
  · rename_i h
    rw [UInt32.le_iff_toNat_le] at h
    omega
  · rename_i h
    rw [UInt32.le_iff_toNat_le] at h
    have hnot : (~~~value).toNat = 2 ^ 32 - 1 - value.toNat := by
      simp [UInt32.toNat_not, UInt32.size]
    omega

end PyNetFT.Core
