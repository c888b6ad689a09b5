import Mathlib.Data.Nat.Digits.Lemmas

/-!
# Numerals

The numeral of a natural number in a base, most significant digit first: no leading zeros, and a
single digit for zero.  `value` is the accumulating loop of a reader.
-/

namespace AwsLc.Numeral

open List Nat

variable {base : Nat}

def value (base : Nat) (digits : List Nat) : Nat :=
  digits.foldl (fun value digit => value * base + digit) 0

/-- The digits of `n`. -/
def numeral (base n : Nat) : List Nat :=
  if n = 0 then [0] else (digits base n).reverse

structure Canonical (base : Nat) (digits : List Nat) : Prop where
  ne_nil : digits ≠ []
  digit_lt : ∀ digit ∈ digits, digit < base
  no_leading_zero : ∀ rest, digits = 0 :: rest → rest = []

@[simp] theorem value_nil : value base [] = 0 := rfl

theorem value_eq_ofDigits (digits : List Nat) :
    value base digits = ofDigits base digits.reverse := by
  induction digits using List.reverseRecOn with
  | nil => rfl
  | append_singleton digits digit ih =>
    rw [value, foldl_concat, ← value, ih, reverse_concat, ofDigits_cons]
    ring

theorem value_append (left right : List Nat) :
    value base (left ++ right) = value base left * base ^ right.length + value base right := by
  rw [value_eq_ofDigits, reverse_append, ofDigits_append, ← value_eq_ofDigits,
    ← value_eq_ofDigits, length_reverse]
  ring

theorem value_cons (digit : Nat) (digits : List Nat) :
    value base (digit :: digits) = digit * base ^ digits.length + value base digits := by
  have happend := @value_append base [digit] digits
  simpa [value] using happend

theorem value_numeral (base n : Nat) : value base (numeral base n) = n := by
  unfold numeral
  split
  · next h =>
    rw [h]
    simp [value]
  · rw [value_eq_ofDigits, reverse_reverse, ofDigits_digits]

theorem canonical_numeral (hbase : 1 < base) (n : Nat) : Canonical base (numeral base n) := by
  unfold numeral
  by_cases hzero : n = 0
  · rw [if_pos hzero]
    refine ⟨by simp, ?_, ?_⟩
    · intro digit hdigit
      rw [mem_singleton.mp hdigit]
      omega
    · intro rest hrest
      exact ((List.cons.inj hrest).2).symm
  rw [if_neg hzero]
  have hne : digits base n ≠ [] := digits_ne_nil_iff_ne_zero.mpr hzero
  refine ⟨by simpa using hne, ?_, ?_⟩
  · intro digit hdigit
    exact digits_lt_base hbase (mem_reverse.mp hdigit)
  · intro rest hrest
    have hlast := getLast_digit_ne_zero base hzero
    rw [getLast_eq_head_reverse] at hlast
    simp [hrest] at hlast

theorem numeral_value (hbase : 1 < base) {digits : List Nat} (h : Canonical base digits) :
    numeral base (value base digits) = digits := by
  rcases digits with _ | ⟨digit, rest⟩
  · exact absurd rfl h.ne_nil
  by_cases hdigit : digit = 0
  · subst hdigit
    rw [h.no_leading_zero rest rfl]
    simp [numeral, value]
  have hpos : value base (digit :: rest) ≠ 0 := by
    have : 0 < digit * base ^ rest.length :=
      Nat.mul_pos (Nat.pos_of_ne_zero hdigit) (Nat.pow_pos (by omega))
    rw [value_cons]
    omega
  rw [numeral, if_neg hpos, value_eq_ofDigits, Nat.digits_ofDigits base hbase]
  · exact reverse_reverse _
  · intro d hd
    exact h.digit_lt d (mem_reverse.mp hd)
  · intro hne
    rw [getLast_reverse]
    exact hdigit

theorem length_numeral (base n : Nat) : (numeral base n).length = max 1 (digits base n).length := by
  by_cases hzero : n = 0
  · rw [hzero]
    simp [numeral]
  · have hpos := length_pos_iff.mpr ((@digits_ne_nil_iff_ne_zero base n).mpr hzero)
    rw [numeral, if_neg hzero, length_reverse]
    omega

/-- The digit at each position, counted from the least significant one. -/
theorem numeral_eq_map (hbase : 1 < base) (n : Nat) :
    numeral base n = (List.range (numeral base n).length).reverse.map fun i =>
      n / base ^ i % base := by
  by_cases hzero : n = 0
  · rw [hzero]
    simp [numeral]
  rw [numeral, if_neg hzero, length_reverse, map_reverse]
  congr 1
  apply ext_getElem
  · simp
  · intro i hi _
    have hdigit := getD_digits n i (show 2 ≤ base from hbase)
    simpa [List.getD, hi] using hdigit

/-- The last `width` digits of `n`. -/
def fixed (base : Nat) : (width : Nat) → (n : Nat) → List Nat
  | 0, _ => []
  | width + 1, n => fixed base width (n / base) ++ [n % base]

theorem value_concat (digits : List Nat) (digit : Nat) :
    value base (digits ++ [digit]) = value base digits * base + digit := by
  rw [value, foldl_concat, ← value]

@[simp] theorem length_fixed (base width n : Nat) : (fixed base width n).length = width := by
  induction width generalizing n with
  | zero => rfl
  | succ width ih => simp [fixed, ih]

theorem fixed_lt (hbase : 0 < base) {width n : Nat} :
    ∀ digit ∈ fixed base width n, digit < base := by
  induction width generalizing n with
  | zero => exact nofun
  | succ width ih =>
    intro digit hdigit
    rcases mem_append.mp hdigit with hdigit | hdigit
    · exact ih digit hdigit
    · rw [mem_singleton.mp hdigit]
      exact mod_lt _ hbase

theorem value_fixed (base width n : Nat) : value base (fixed base width n) = n % base ^ width := by
  induction width generalizing n with
  | zero => simp [fixed, mod_one]
  | succ width ih =>
    rw [fixed, value_concat, ih, pow_succ, mul_comm (base ^ width), mod_mul]
    ring

theorem fixed_value {digits : List Nat} (h : ∀ digit ∈ digits, digit < base) :
    fixed base digits.length (value base digits) = digits := by
  induction digits using List.reverseRecOn with
  | nil => rfl
  | append_singleton digits digit ih =>
    have hdigit : digit < base := h digit (by simp)
    have hdiv : (value base digits * base + digit) / base = value base digits := by
      rw [mul_comm, mul_add_div (by omega), div_eq_of_lt hdigit, add_zero]
    have hmod : (value base digits * base + digit) % base = digit := by
      rw [mul_comm, mul_add_mod, mod_eq_of_lt hdigit]
    rw [value_concat, length_append, length_singleton, fixed, hdiv, hmod,
      ih fun d hd => h d (mem_append_left _ hd)]

theorem fixed_add_mul (hbase : 0 < base) (width high low : Nat) :
    fixed base width (high * base ^ width + low) = fixed base width low := by
  induction width generalizing low with
  | zero => rfl
  | succ width ih =>
    have hdiv : (high * base ^ (width + 1) + low) / base = high * base ^ width + low / base := by
      rw [pow_succ, ← mul_assoc, mul_comm _ base, mul_add_div hbase]
    have hmod : (high * base ^ (width + 1) + low) % base = low % base := by
      rw [pow_succ, ← mul_assoc, mul_comm _ base, mul_add_mod]
    rw [fixed, fixed, hdiv, hmod, ih]

end AwsLc.Numeral
