/-
PyNetFT.Lib.BigEndian — numbers in network byte order.

`ofNat width n` are the last `width` bytes of `n`, most significant
first; `toNat` reads a byte string of any length. The two are inverse to
each other on numbers below `256 ^ width` and strings of that length,
which is all a fixed-width wire format needs.
-/
import Mathlib.Algebra.Group.Nat.Defs
import Mathlib.Data.Nat.Basic
import Mathlib.Data.List.Induction

namespace PyNetFT.Lib.BigEndian

/-- The number a byte string stands for. -/
def toNat (bytes : List UInt8) : Nat := bytes.foldl (fun n byte => n * 256 + byte.toNat) 0

/-- The last `width` bytes of a number. -/
def ofNat : Nat → Nat → List UInt8
  | 0, _ => []
  | width + 1, n => ofNat width (n / 256) ++ [UInt8.ofNat n]

theorem toNat_concat (bytes : List UInt8) (byte : UInt8) :
    toNat (bytes ++ [byte]) = toNat bytes * 256 + byte.toNat := by
  simp [toNat]

@[simp] theorem ofNat_length (width n : Nat) : (ofNat width n).length = width := by
  induction width generalizing n with
  | zero => rfl
  | succ width ih => simp [ofNat, ih]

theorem toNat_ofNat (width n : Nat) : toNat (ofNat width n) = n % 256 ^ width := by
  induction width generalizing n with
  | zero => simp [ofNat, toNat, Nat.mod_one]
  | succ width ih =>
    have hbyte : n % 2 ^ 8 = n % 256 := rfl
    rw [ofNat, toNat_concat, ih, UInt8.toNat_ofNat', hbyte, Nat.pow_succ', Nat.mod_mul]
    omega

/-- Reading and writing again gives the bytes back. -/
theorem ofNat_toNat (bytes : List UInt8) : ofNat bytes.length (toNat bytes) = bytes := by
  induction bytes using List.reverseRecOn with
  | nil => rfl
  | append_singleton bytes byte ih =>
    have hlt : byte.toNat < 256 := byte.toNat_lt
    have hdiv : (toNat bytes * 256 + byte.toNat) / 256 = toNat bytes := by omega
    have hbyte : UInt8.ofNat (toNat bytes * 256 + byte.toNat) = byte := by
      apply UInt8.toNat_inj.mp
      rw [UInt8.toNat_ofNat']
      omega
    rw [List.length_append, List.length_singleton, ofNat, toNat_concat, hdiv, ih, hbyte]

theorem ofNat_injective {width m n : Nat} (hm : m < 256 ^ width) (hn : n < 256 ^ width)
    (h : ofNat width m = ofNat width n) : m = n := by
  have hread := congrArg toNat h
  rwa [toNat_ofNat, toNat_ofNat, Nat.mod_eq_of_lt hm, Nat.mod_eq_of_lt hn] at hread

end PyNetFT.Lib.BigEndian
