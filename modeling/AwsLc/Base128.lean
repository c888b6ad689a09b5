import AwsLc.Asn1
import AwsLc.Numeral

/-!
# Base-128 integers (`cbs.c`, `cbb.c`)

The base-128 numeral of a 64-bit number, with the high bit set on every octet but the last.  High
tag numbers and the components of object identifiers are written this way.  The parser checks that
there is no leading zero digit and that nothing is shifted out.
-/

namespace AwsLc

open AwsLc.Numeral List

def continuedOctets : List Nat → Bytes
  | [] => []
  | [digit] => [UInt8.ofNat digit]
  | digit :: rest => (UInt8.ofNat digit ||| 0x80) :: continuedOctets rest

theorem continuedOctets_cons (digit : Nat) {rest : List Nat} (hrest : rest ≠ []) :
    continuedOctets (digit :: rest) = (UInt8.ofNat digit ||| 0x80) :: continuedOctets rest := by
  rcases rest with _ | ⟨next, rest⟩
  · exact absurd rfl hrest
  · rfl

/-- What the parser sees of a digit, with and without the continuation bit. -/
theorem octet_facts : ∀ digit : Fin 128,
    (UInt8.ofNat digit) &&& 0x80 = 0 ∧ (UInt8.ofNat digit &&& 0x7f).toNat = digit ∧
    (UInt8.ofNat digit ||| 0x80) &&& 0x80 ≠ 0 ∧
    ((UInt8.ofNat digit ||| 0x80) &&& 0x7f).toNat = digit ∧ UInt8.ofNat digit ≠ 0x80 ∧
    (UInt8.ofNat digit ||| 0x80 = 0x80 ↔ digit.val = 0) := by
  decide +kernel

/-- Every octet is a digit with or without the continuation bit. -/
theorem octet_cases : ∀ octet : UInt8, (octet &&& 0x7f).toNat < 128 ∧
    octet = if octet &&& 0x80 = 0 then UInt8.ofNat (octet &&& 0x7f).toNat
      else UInt8.ofNat (octet &&& 0x7f).toNat ||| 0x80 := by
  apply forall_byte
  decide +kernel

theorem shiftRight_eq_zero_iff (v : UInt64) : v >>> 57 = 0 ↔ v.toNat < 2 ^ 57 := by
  rw [← UInt64.toNat_inj, UInt64.toNat_shiftRight]
  change v.toNat >>> 57 = 0 ↔ _
  rw [Nat.shiftRight_eq_div_pow, Nat.div_eq_zero_iff]
  simp

/-- Shifting a digit in, which does not overflow if the check has passed. -/
theorem shiftDigit_toNat {v : UInt64} (hv : v >>> 57 = 0) (octet : UInt8) :
    ((v <<< 7) ||| (octet &&& 0x7f).toUInt64).toNat = v.toNat * 128 + (octet &&& 0x7f).toNat := by
  have hlt := (shiftRight_eq_zero_iff v).mp hv
  have hdigit : (octet &&& 0x7f).toNat < 2 ^ 7 := (octet_cases octet).1
  have hor := Nat.shiftLeft_add_eq_or_of_lt hdigit v.toNat
  rw [UInt64.toNat_or, UInt64.toNat_shiftLeft, UInt8.toNat_toUInt64]
  change v.toNat <<< 7 % 2 ^ 64 ||| _ = _
  rw [Nat.mod_eq_of_lt (by rw [Nat.shiftLeft_eq]; omega), ← hor, Nat.shiftLeft_eq]

/-- Digits that follow the number `v`: they are there, and a leading zero is the only digit. -/
structure Follows128 (v : Nat) (digits : List Nat) : Prop where
  ne_nil : digits ≠ []
  digit_lt : ∀ digit ∈ digits, digit < 128
  minimal : v = 0 → ∀ rest, digits = 0 :: rest → rest = []

theorem parseBase128Integer_digits {digits : List Nat} {v : UInt64} (rest : Bytes)
    (h : Follows128 v.toNat digits)
    (hfits : v.toNat * 128 ^ digits.length + value 128 digits < 2 ^ 64) :
    parseBase128Integer (continuedOctets digits ++ rest) v =
      some (UInt64.ofNat (v.toNat * 128 ^ digits.length + value 128 digits), rest) := by
  induction digits generalizing v with
  | nil => exact absurd rfl h.ne_nil
  | cons digit digits ih =>
    have hdigit := h.digit_lt digit mem_cons_self
    obtain ⟨hlast, hlastValue, hmore, hmoreValue, hne, hzero⟩ := octet_facts ⟨digit, hdigit⟩
    have hpos : 0 < 128 ^ digits.length := Nat.pow_pos (by decide)
    have hshift : ¬v >>> 57 ≠ 0 := by
      rw [not_not, shiftRight_eq_zero_iff]
      rw [length_cons, Nat.pow_succ] at hfits
      have : v.toNat * 128 ≤ v.toNat * (128 ^ digits.length * 128) :=
        Nat.mul_le_mul_left _ (by omega)
      omega
    rw [not_not] at hshift
    by_cases hnil : digits = []
    · subst hnil
      have hvalue := shiftDigit_toNat hshift (UInt8.ofNat digit)
      rw [hlastValue] at hvalue
      rw [continuedOctets, singleton_append, parseBase128Integer, if_neg (by simp [hshift]),
        if_neg (fun hboth => hne hboth.2)]
      dsimp only
      rw [if_neg (by simp [hlast])]
      simp only [length_singleton, Nat.pow_one, value_cons, length_nil, Nat.pow_zero,
        Nat.mul_one, value_nil, Nat.add_zero, ← hvalue, UInt64.ofNat_toNat]
    · have hstep := shiftDigit_toNat hshift (UInt8.ofNat digit ||| 0x80)
      rw [hmoreValue] at hstep
      have hminimal : ¬(v = 0 ∧ UInt8.ofNat digit ||| 0x80 = 0x80) := by
        rintro ⟨rfl, heq⟩
        have hdigitZero : digit = 0 := hzero.mp heq
        exact hnil (h.minimal rfl digits (by rw [hdigitZero]))
      have hvalue : (v.toNat * 128 + digit) * 128 ^ digits.length + value 128 digits =
          v.toNat * 128 ^ (digit :: digits).length + value 128 (digit :: digits) := by
        rw [value_cons, length_cons]
        ring
      have hfollows : Follows128 ((v <<< 7) |||
          ((UInt8.ofNat digit ||| 0x80) &&& 0x7f).toUInt64).toNat digits := by
        refine ⟨hnil, fun d hd => h.digit_lt d (mem_cons_of_mem _ hd), ?_⟩
        intro hstart
        rw [hstep, Nat.add_eq_zero_iff, Nat.mul_eq_zero] at hstart
        have hv : v = 0 := UInt64.toNat_inj.mp (hstart.1.resolve_right (by decide))
        exact absurd ⟨hv, hzero.mpr hstart.2⟩ hminimal
      rw [continuedOctets_cons digit hnil, cons_append, parseBase128Integer,
        if_neg (by simp [hshift]), if_neg hminimal]
      dsimp only
      rw [if_pos hmore, ih hfollows (by rw [hstep, hvalue]; exact hfits), hstep, hvalue]

theorem parseBase128Integer_eq_some {bytes rest : Bytes} {v w : UInt64}
    (h : parseBase128Integer bytes v = some (w, rest)) :
    ∃ digits, Follows128 v.toNat digits ∧ bytes = continuedOctets digits ++ rest ∧
      w.toNat = v.toNat * 128 ^ digits.length + value 128 digits := by
  induction bytes generalizing v with
  | nil => cases h
  | cons octet bytes ih =>
    rw [parseBase128Integer] at h
    by_cases hshift : v >>> 57 ≠ 0
    · rw [if_pos hshift] at h
      cases h
    rw [if_neg hshift] at h
    by_cases hminimal : v = 0 ∧ octet = 0x80
    · rw [if_pos hminimal] at h
      cases h
    rw [if_neg hminimal] at h
    rw [not_not] at hshift
    have hstep := shiftDigit_toNat hshift octet
    obtain ⟨hdigit, hoctet⟩ := octet_cases octet
    generalize hdigitEq : (octet &&& 0x7f).toNat = digit at hstep hdigit hoctet
    by_cases hmore : octet &&& 0x80 ≠ 0
    · rw [if_pos hmore] at h
      obtain ⟨digits, hdigits, hbytes, hvalue⟩ := ih h
      rw [if_neg hmore] at hoctet
      refine ⟨digit :: digits, ⟨by simp, ?_, ?_⟩, ?_, ?_⟩
      · intro d hd
        rcases mem_cons.mp hd with rfl | hd
        · exact hdigit
        · exact hdigits.digit_lt d hd
      · intro hv rest hrest
        have hzero : octet = 0x80 := by
          rw [hoctet, (List.cons.inj hrest).1]
          rfl
        exact absurd ⟨UInt64.toNat_inj.mp hv, hzero⟩ hminimal
      · rw [continuedOctets_cons digit hdigits.ne_nil, cons_append, ← hbytes, ← hoctet]
      · rw [hvalue, hstep, value_cons, length_cons]
        ring
    · rw [if_neg hmore] at h
      rw [not_not] at hmore
      rw [if_pos hmore] at hoctet
      cases h
      refine ⟨[digit], ⟨by simp, ?_, ?_⟩, ?_, ?_⟩
      · intro d hd
        rw [mem_singleton.mp hd]
        exact hdigit
      · intro _ rest hrest
        exact (List.cons.inj hrest).2.symm
      · rw [continuedOctets, singleton_append, ← hoctet]
      · rw [hstep, value_cons]
        simp

theorem base128Groups_eq (fuel : Nat) (v : UInt64) (hv : v.toNat < 128 ^ fuel) :
    base128Groups fuel v = (Nat.digits 128 v.toNat).length := by
  induction fuel generalizing v with
  | zero =>
    have hzero : v.toNat = 0 := by omega
    rw [hzero]
    rfl
  | succ fuel ih =>
    have hshift : (v >>> 7).toNat = v.toNat / 128 := by
      rw [UInt64.toNat_shiftRight]
      change v.toNat >>> 7 = _
      rw [Nat.shiftRight_eq_div_pow]
    rw [base128Groups]
    by_cases hzero : v = 0
    · rw [if_pos hzero, hzero]
      rfl
    have hpos : 0 < v.toNat := by
      apply Nat.pos_of_ne_zero
      intro heq
      exact hzero (UInt64.toNat_inj.mp heq)
    rw [Nat.pow_succ] at hv
    rw [if_neg hzero, ih (v >>> 7) (by rw [hshift]; omega), hshift,
      Nat.digits_def' (by decide) hpos, length_cons]

/-- All positions but the lowest carry the continuation bit. -/
theorem continuedOctets_map (digit : Nat → Nat) (count : Nat) :
    continuedOctets ((List.range count).reverse.map digit) = (List.range count).reverse.map fun i =>
        if i ≠ 0 then UInt8.ofNat (digit i) ||| 0x80 else UInt8.ofNat (digit i) := by
  induction count with
  | zero => rfl
  | succ count ih =>
    rw [range_succ, reverse_concat, map_cons, map_cons]
    rcases count with _ | count
    · rfl
    · rw [continuedOctets_cons _ (by simp), ih, if_pos (Nat.succ_ne_zero count)]

theorem group_toUInt8 {v : UInt64} {i : Nat} (hi : i < 10) :
    ((v >>> (7 * UInt64.ofNat i)) &&& 0x7f).toUInt8 = UInt8.ofNat (v.toNat / 128 ^ i % 128) := by
  have hshift : (v >>> (7 * UInt64.ofNat i)).toNat = v.toNat / 128 ^ i := by
    have hamount : (7 * UInt64.ofNat i).toNat % 64 = 7 * i := by
      have hall : ∀ i : Fin 10, (7 * UInt64.ofNat i).toNat % 64 = 7 * i := by decide
      exact hall ⟨i, hi⟩
    rw [UInt64.toNat_shiftRight, hamount, Nat.shiftRight_eq_div_pow, Nat.pow_mul]
  apply UInt8.toNat_inj.mp
  rw [UInt64.toNat_toUInt8, UInt64.toNat_and, hshift, UInt8.toNat_ofNat']
  congr 1
  exact Nat.and_two_pow_sub_one_eq_mod _ 7

theorem addBase128Integer_eq (v : UInt64) :
    addBase128Integer v = continuedOctets (numeral 128 v.toNat) := by
  have hgroups : max 1 (base128Groups 10 v) = (numeral 128 v.toNat).length := by
    have := v.toNat_lt
    rw [length_numeral, base128Groups_eq 10 v (by omega)]
  have hle : (numeral 128 v.toNat).length ≤ 10 := by
    have := base128Groups_le 10 v
    omega
  rw [numeral_eq_map (by decide), continuedOctets_map, addBase128Integer, hgroups]
  apply map_congr_left
  intro i hi
  rw [mem_reverse, mem_range] at hi
  rw [group_toUInt8 (by omega)]

/-- **Base-128 integers.**  The parser accepts exactly what the writer produces. -/
theorem parseBase128Integer_iff {bytes rest : Bytes} {v : UInt64} :
    parseBase128Integer bytes 0 = some (v, rest) ↔ bytes = addBase128Integer v ++ rest := by
  constructor
  · intro h
    obtain ⟨digits, hdigits, hbytes, hvalue⟩ := parseBase128Integer_eq_some h
    have hcanonical : Canonical 128 digits :=
      ⟨hdigits.ne_nil, hdigits.digit_lt, hdigits.minimal rfl⟩
    have hnumeral := numeral_value (by decide) hcanonical
    rw [UInt64.toNat_zero, Nat.zero_mul, Nat.zero_add] at hvalue
    rw [hbytes, addBase128Integer_eq, hvalue, hnumeral]
  · rintro rfl
    have hcanonical := @canonical_numeral 128 (by decide) v.toNat
    have hparse := @parseBase128Integer_digits (numeral 128 v.toNat) 0 rest
      ⟨hcanonical.ne_nil, hcanonical.digit_lt, fun _ => hcanonical.no_leading_zero⟩
    rw [UInt64.toNat_zero, Nat.zero_mul, Nat.zero_add, value_numeral] at hparse
    rw [addBase128Integer_eq, hparse v.toNat_lt, UInt64.ofNat_toNat]

end AwsLc
