import Sanmill.Lib.Numerals
import Mathlib.Data.Nat.Init

/-!
# Little-endian bytes

A number as a list of bytes, the lowest first, and back.
-/

namespace Sanmill.LittleEndian

/-- A byte. -/
abbrev Byte : Type := BitVec 8

/-- The lowest bytes of a number, as many as asked for. -/
def encode : Nat → Nat → List Byte
  | 0, _ => []
  | count + 1, v => BitVec.ofNat 8 v :: encode count (v / 256)

/-- The number that the bytes make. -/
def decode : List Byte → Nat
  | [] => 0
  | b :: rest => b.toNat + 256 * decode rest

@[simp] theorem length_encode (count v : Nat) : (encode count v).length = count := by
  induction count generalizing v with
  | zero => rfl
  | succ count ih =>
    show (encode count (v / 256)).length + 1 = count + 1
    rw [ih]

/-- The bytes of a number that fits make the number again. -/
theorem decode_encode {count v : Nat} (h : v < 256 ^ count) : decode (encode count v) = v := by
  induction count generalizing v with
  | zero =>
    rw [Nat.pow_zero] at h
    show 0 = v
    omega
  | succ count ih =>
    have hrest : v / 256 < 256 ^ count := by
      rw [Nat.pow_succ] at h
      exact Nat.div_lt_of_lt_mul (by omega)
    have hlow : (BitVec.ofNat 8 v).toNat = v % 256 := BitVec.toNat_ofNat v 8
    show (BitVec.ofNat 8 v).toNat + 256 * decode (encode count (v / 256)) = v
    rw [ih hrest, hlow]
    omega

/-- Bytes are the bytes of the number that they make. -/
theorem encode_decode (bytes : List Byte) : encode bytes.length (decode bytes) = bytes := by
  induction bytes with
  | nil => rfl
  | cons b rest ih =>
    have hb : b.toNat < 256 := b.isLt
    have hlow : BitVec.ofNat 8 (b.toNat + 256 * decode rest) = b := by
      apply BitVec.eq_of_toNat_eq
      rw [BitVec.toNat_ofNat]
      omega
    have hhigh : (b.toNat + 256 * decode rest) / 256 = decode rest := by omega
    show BitVec.ofNat 8 (b.toNat + 256 * decode rest)
      :: encode rest.length ((b.toNat + 256 * decode rest) / 256) = _
    rw [hlow, hhigh, ih]

end Sanmill.LittleEndian
