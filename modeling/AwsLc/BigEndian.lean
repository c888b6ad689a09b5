import Mathlib.Data.Nat.Digits.Lemmas

/-!
# Big-endian byte strings

A byte string read as a base-256 numeral, most significant byte first, as all readers do it, and the
numeral of a fixed length of a number.
-/

namespace AwsLc.BigEndian

open List Nat

/-- The value of a byte string read most significant byte first. -/
def beNat (bytes : List UInt8) : Nat :=
  bytes.foldl (fun value byte => value * 256 + byte.toNat) 0

/-- The low `8 * length` bits of `value`, most significant byte first. -/
def beBytes : (length : Nat) → (value : Nat) → List UInt8
  | 0, _ => []
  | length + 1, value => beBytes length (value / 256) ++ [UInt8.ofNat value]

@[simp] theorem beNat_nil : beNat [] = 0 := rfl

variable (bytes : List UInt8)

@[simp] theorem beNat_concat (byte : UInt8) :
    beNat (bytes ++ [byte]) = beNat bytes * 256 + byte.toNat := by
  simp [beNat]

theorem beNat_eq_ofDigits : beNat bytes = ofDigits 256 (bytes.reverse.map UInt8.toNat) := by
  induction bytes using List.reverseRecOn with
  | nil => rfl
  | append_singleton bytes byte ih =>
      rw [beNat_concat, ih, reverse_append, reverse_singleton,
        singleton_append, map_cons, ofDigits_cons]
      ring

theorem beNat_append (left right : List UInt8) :
    beNat (left ++ right) = beNat left * 256 ^ right.length + beNat right := by
  simp only [beNat_eq_ofDigits, reverse_append, map_append,
    ofDigits_append, length_map, length_reverse]
  ring

@[simp] theorem beNat_cons (byte : UInt8) (bytes : List UInt8) :
    beNat (byte :: bytes) = byte.toNat * 256 ^ bytes.length + beNat bytes := by
  have happend := beNat_append [byte] bytes
  simpa [beNat] using happend

theorem beNat_lt : beNat bytes < 256 ^ bytes.length := by
  rw [beNat_eq_ofDigits]
  have hlt := ofDigits_lt_base_pow_length' (b := 254)
    (l := bytes.reverse.map UInt8.toNat) (by
      intro digit hdigit
      obtain ⟨byte, -, rfl⟩ := mem_map.mp hdigit
      exact byte.toNat_lt)
  simpa using hlt

@[simp] theorem length_beBytes (length value : Nat) : (beBytes length value).length = length := by
  induction length generalizing value with
  | zero => rfl
  | succ length ih => simp [beBytes, ih]

theorem beNat_beBytes (length value : Nat) :
    beNat (beBytes length value) = value % 256 ^ length := by
  induction length generalizing value with
  | zero => simp [beBytes, mod_one]
  | succ length ih =>
      have hsplit : value % 256 ^ (length + 1) =
          value % 256 + 256 * (value / 256 % 256 ^ length) := by
        rw [pow_succ', mod_mul]
      rw [beBytes, beNat_concat, ih, UInt8.toNat_ofNat', hsplit]
      omega

theorem beNat_beBytes_of_lt {length value : Nat} (hfits : value < 256 ^ length) :
    beNat (beBytes length value) = value := by
  rw [beNat_beBytes, mod_eq_of_lt hfits]

theorem beBytes_beNat : beBytes bytes.length (beNat bytes) = bytes := by
  induction bytes using List.reverseRecOn with
  | nil => rfl
  | append_singleton bytes byte ih =>
      have hbyte : byte.toNat < 256 := byte.toNat_lt
      have hdiv : (beNat bytes * 256 + byte.toNat) / 256 = beNat bytes := by omega
      have hlast : UInt8.ofNat (beNat bytes * 256 + byte.toNat) = byte := by
        apply UInt8.toNat_inj.mp
        rw [UInt8.toNat_ofNat']
        omega
      simp [beBytes, hdiv, hlast, ih]

/-- Two strings of one length with one value are equal. -/
theorem beNat_injective_of_length {left right : List UInt8}
    (hlength : left.length = right.length) (hvalue : beNat left = beNat right) : left = right := by
  rw [← beBytes_beNat left, ← beBytes_beNat right, hlength, hvalue]

/-- A numeral of `length` bytes depends only on the value modulo `256 ^ length`. -/
theorem beBytes_mod (length value : Nat) :
    beBytes length (value % 256 ^ length) = beBytes length value := by
  apply beNat_injective_of_length (by simp)
  rw [beNat_beBytes, beNat_beBytes, mod_mod]

theorem beNat_dropWhile_zero : beNat (bytes.dropWhile (· = 0)) = beNat bytes := by
  induction bytes with
  | nil => rfl
  | cons byte rest ih =>
    by_cases hzero : byte = 0
    · rw [dropWhile_cons_of_pos (by simpa using hzero), ih, hzero, beNat_cons]
      simp
    · rw [dropWhile_cons_of_neg (by simpa using hzero)]

theorem beNat_replicate_zero_append (count : Nat) (bytes : List UInt8) :
    beNat (List.replicate count 0 ++ bytes) = beNat bytes := by
  induction count with
  | zero => rfl
  | succ count ih =>
    rw [replicate_succ, cons_append, beNat_cons, ih]
    simp

theorem shiftOr_toNat (ret : UInt64) (byte : UInt8) :
    ((ret <<< 8) ||| byte.toUInt64).toNat = (ret.toNat * 256 + byte.toNat) % 2 ^ 64 := by
  have hbyte : byte.toNat < 2 ^ 8 := byte.toNat_lt
  have hor := shiftLeft_add_eq_or_of_lt hbyte ret.toNat
  have hshift : ret.toNat <<< 8 = ret.toNat * 256 := by rw [shiftLeft_eq]
  have hlow : byte.toNat % 2 ^ 64 = byte.toNat := mod_eq_of_lt (by omega)
  rw [UInt64.toNat_or, UInt64.toNat_shiftLeft, UInt8.toNat_toUInt64]
  rw [← hshift, hor, or_mod_two_pow, hlow]
  rfl

theorem foldl_shiftOr_toNat (ret : UInt64) :
    (bytes.foldl (fun (ret : UInt64) byte => (ret <<< 8) ||| byte.toUInt64) ret).toNat =
      (ret.toNat * 256 ^ bytes.length + beNat bytes) % 2 ^ 64 := by
  induction bytes generalizing ret with
  | nil => simp [mod_eq_of_lt ret.toNat_lt]
  | cons byte bytes ih =>
      rw [foldl_cons, ih, shiftOr_toNat, beNat_cons, length_cons]
      rw [add_mod, mod_mul_mod, ← add_mod]
      congr 1
      ring

end AwsLc.BigEndian
