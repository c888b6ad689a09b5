import AwsLc.BigEndian
import AwsLc.XorBytes

/-!
# Little-endian byte strings

A byte string read as a number, least significant byte first, and the bytes of a number.
-/

namespace AwsLc.LittleEndian

open AwsLc.BigEndian

/-- The value of a byte string read least significant byte first. -/
def leNat (bytes : List UInt8) : Nat := beNat bytes.reverse

/-- The low `8 * length` bits of `value`, least significant byte first. -/
def leBytes (length value : Nat) : List UInt8 := (beBytes length value).reverse

@[simp] theorem length_leBytes (length value : Nat) : (leBytes length value).length = length := by
  simp [leBytes]

theorem leNat_lt (bytes : List UInt8) : leNat bytes < 256 ^ bytes.length := by
  have hlt := beNat_lt bytes.reverse
  rwa [List.length_reverse] at hlt

theorem leNat_append (low high : List UInt8) :
    leNat (low ++ high) = leNat low + 256 ^ low.length * leNat high := by
  rw [leNat, List.reverse_append, beNat_append, List.length_reverse, Nat.mul_comm, Nat.add_comm]
  rfl

theorem leNat_leBytes (length value : Nat) :
    leNat (leBytes length value) = value % 256 ^ length := by
  rw [leNat, leBytes, List.reverse_reverse, beNat_beBytes]

theorem leBytes_leNat {bytes : List UInt8} {length : Nat} (h : bytes.length = length) :
    leBytes length (leNat bytes) = bytes := by
  have hback := beBytes_beNat bytes.reverse
  rw [List.length_reverse, h] at hback
  rw [leBytes, leNat, hback, List.reverse_reverse]

theorem leBytes_append (first second value : Nat) : leBytes (first + second) value =
      leBytes first value ++ leBytes second (value / 256 ^ first) := by
  have hlength : (leBytes first value ++ leBytes second (value / 256 ^ first)).length =
      first + second := by
    simp
  rw [← leBytes_leNat hlength, leNat_append, length_leBytes, leNat_leBytes, leNat_leBytes,
    ← Nat.mod_mul, ← Nat.pow_add, ← leNat_leBytes, leBytes_leNat (length_leBytes _ _)]

end AwsLc.LittleEndian
