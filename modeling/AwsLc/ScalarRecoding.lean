import Mathlib.Data.Nat.Bitwise
import Mathlib.Tactic.Linarith
import Mathlib.Tactic.LinearCombination
import Mathlib.Tactic.Ring

/-!
# Signed digits of scalars

`ec_compute_wNAF` writes one digit for each bit and one more, most of them zero; `scalar_rwnaf`
writes an odd digit for each window.

A scalar is the number in its words, the lowest of which has all bits of the first window.  The
windows have at most 14 bits, so that no sum overflows.
-/

namespace AwsLc

/-- The digits as a number, the least significant one first. -/
def signedValue (base : Int) (digits : List Int) : Int :=
  digits.foldr (fun digit value => digit + base * value) 0

section

variable (k : Nat)

def getBit (i : Nat) : Nat := k / 2 ^ i % 2

def bnIsBitSetWords (num bit : Nat) : Nat := if bit / 64 < num then getBit k bit else 0

/-! ### The digits of `ec_compute_wNAF` -/

/-- The digit of a window, where `top` says that no more bits will come into it. -/
def wnafDigit (w : Nat) (top : Bool) (window : Int) : Int :=
  if window % 2 = 1 then
    if window / 2 ^ w % 2 = 1 then
      if top then window % 2 ^ w else window - 2 ^ (w + 1)
    else window
  else 0

/-- The loop from the digit `j` on, or none where an assertion fails. -/
def wnafLoop (bits w : Nat) : (steps j : Nat) → (window : Int) → Option (List Int)
  | 0, _, window => if window = 0 then some [] else none
  | steps + 1, j, window =>
    let digit := wnafDigit w (j + w + 1 ≥ bits) window
    let rest := window - digit
    let next := rest / 2 + 2 ^ w * bnIsBitSetWords k ((bits + 63) / 64) (j + w + 1)
    if (0 ≤ window ∧ window ≤ 2 ^ (w + 1)) ∧
        (window % 2 = 1 → (0 < window ∧ window < 2 ^ (w + 1)) ∧
          (rest = 0 ∨ rest = 2 ^ (w + 1) ∨ rest = 2 ^ w) ∧
          (-2 ^ w < digit ∧ digit < 2 ^ w) ∧ digit % 2 = 1) ∧
        next ≤ 2 ^ (w + 1) then
      (wnafLoop bits w steps (j + 1) next).map (digit :: ·)
    else none

def ecComputeWnaf (bits w : Nat) : Option (List Int) :=
  if (0 < w ∧ w ≤ 7) ∧ bits ≠ 0 then
    wnafLoop k bits w (bits + 1) 0 (k % 2 ^ (w + 1) : Nat)
  else none

/-! ### The digits of `scalar_rwnaf` -/

/-- The inner loop, which puts the bits of the next window behind its lowest one. -/
def rwnafBits (b w i window : Nat) : Nat :=
  (List.range' 1 w).foldl (fun window j =>
    if (i + 1) * w + j < b then window ||| getBit k ((i + 1) * w + j) <<< j else window) window

/-- The outer loop, and the last digit. -/
def rwnafLoop (b w : Nat) : (steps i window : Nat) → List Int
  | 0, _, window => [(window : Int)]
  | steps + 1, i, window =>
    let d : Int := (window % 2 ^ (w + 1) : Nat) - 2 ^ w
    d :: rwnafLoop b w steps (i + 1) (rwnafBits k b w i ((window - d) / 2 ^ w).toNat)

/-- `scalar_rwnaf`.  Without windows the bound of the loop wraps, and it leaves the array. -/
def scalarRwnaf (b w : Nat) : Option (List Int) :=
  match (b + w - 1) / w with
  | 0 => none
  | steps + 1 => some (rwnafLoop k b w steps 0 (k % 2 ^ (w + 1) ||| 1))

end

variable {k bits b w i j : Nat}

theorem bnIsBitSetWords_eq (hk : k < 2 ^ bits) :
    bnIsBitSetWords k ((bits + 63) / 64) i = k / 2 ^ i % 2 := by
  unfold bnIsBitSetWords
  split
  · rfl
  · rename_i hout
    have hle : 2 ^ bits ≤ 2 ^ i := Nat.pow_le_pow_right (by decide) (by omega)
    rw [Nat.div_eq_of_lt (hk.trans_le hle)]

/-- The digit clears the window up to its highest bit, or up to the one before it. -/
theorem wnafDigit_cases (hw : 0 < w) (top : Bool) {window : Int} (hnonneg : 0 ≤ window)
    (hle : window ≤ 2 * 2 ^ w) : window % 2 = 0 ∧ wnafDigit w top window = 0 ∨
    window % 2 = 1 ∧ window < 2 ^ w ∧ wnafDigit w top window = window ∨
    window % 2 = 1 ∧ 2 ^ w < window ∧ window < 2 * 2 ^ w ∧
      (top = true ∧ wnafDigit w top window = window - 2 ^ w ∨
        top = false ∧ wnafDigit w top window = window - 2 * 2 ^ w) := by
  have heven : (2 : Int) ^ w % 2 = 0 := Int.emod_eq_zero_of_dvd (dvd_pow_self 2 hw.ne')
  have hpow : (2 : Int) ^ (w + 1) = 2 * 2 ^ w := pow_succ' 2 w
  unfold wnafDigit
  rw [hpow]
  generalize (2 : Int) ^ w = half at *
  by_cases hodd : window % 2 = 1
  · by_cases hlow : window < half
    · have hdiv : window / half = 0 := Int.ediv_eq_zero_of_lt hnonneg hlow
      simp [hodd, hdiv, hlow]
    · have hdiv : window / half = 1 := by
        rw [Int.ediv_eq_iff_of_pos (by omega)]
        omega
      have hmod : window % half = window - half := by
        rw [Int.emod_def, hdiv, Int.mul_one]
      refine .inr (.inr ⟨hodd, by omega, by omega, ?_⟩)
      cases top <;> simp [hodd, hdiv, hmod]
  · exact .inl ⟨by omega, if_neg hodd⟩

/-- What the window and the bits above it stand for, at the digit `j`. -/
def wnafRest (k w j : Nat) (window : Int) : Int := window + 2 * 2 ^ w * (k / 2 ^ (j + w + 1) : Nat)

/-- **The loop.**  The digits from `j` on stand for the rest, which fits in the bits left. -/
theorem wnafLoop_spec (hw : 0 < w) (hk : k < 2 ^ bits) {steps : Nat} {window : Int}
    (hsteps : j + steps = bits + 1) (hnonneg : 0 ≤ window) (hle : window ≤ 2 * 2 ^ w)
    (hfits : 2 ^ j * wnafRest k w j window ≤ 2 ^ bits) :
    ∃ digits, wnafLoop k bits w steps j window = some digits ∧ digits.length = steps ∧
      signedValue 2 digits = wnafRest k w j window ∧
      ∀ digit ∈ digits, digit = 0 ∨ digit % 2 = 1 ∧ |digit| < 2 ^ w := by
  induction steps generalizing j window with
  | zero =>
    obtain rfl : j = bits + 1 := hsteps
    have hrest : 0 ≤ 2 * 2 ^ w * ((k / 2 ^ (bits + 1 + w + 1) : Nat) : Int) := by positivity
    have hpos : (0 : Int) < 2 ^ bits := by positivity
    rw [pow_succ] at hfits
    have hzero : wnafRest k w (bits + 1) window < 1 := by nlinarith
    unfold wnafRest at hzero ⊢
    have hwindow : window = 0 := by omega
    exact ⟨[], if_pos hwindow, rfl, by rw [signedValue, List.foldr_nil]; omega, nofun⟩
  | succ steps ih =>
    have hcases := wnafDigit_cases hw (j + w + 1 ≥ bits) hnonneg hle
    have heven : (2 : Int) ^ w % 2 = 0 := Int.emod_eq_zero_of_dvd (dvd_pow_self 2 hw.ne')
    have hbit := bnIsBitSetWords_eq (i := j + w + 1) hk
    -- the digit is negative only if the bits above the window can take the carry
    have hroom : j + w + 1 < bits →
        2 ^ j * (2 * 2 ^ w * ((k / 2 ^ (j + w + 1) : Nat) + 1 : Int)) ≤ 2 ^ bits := by
      intro hlt
      have hsplit : 2 ^ (j + w + 1) * 2 ^ (bits - (j + w + 1)) = 2 ^ bits := by
        rw [← Nat.pow_add, Nat.add_sub_cancel' hlt.le]
      have habove : k / 2 ^ (j + w + 1) < 2 ^ (bits - (j + w + 1)) :=
        Nat.div_lt_of_lt_mul (hsplit.symm ▸ hk)
      have hmul := Nat.mul_le_mul_left (2 ^ (j + w + 1)) habove
      generalize k / 2 ^ (j + w + 1) = above at hmul ⊢
      rw [hsplit, Nat.pow_succ, Nat.pow_add] at hmul
      zify at hmul
      linarith
    have hshift : k / 2 ^ (j + 1 + w + 1) = k / 2 ^ (j + w + 1) / 2 := by
      rw [Nat.div_div_eq_div_mul, ← Nat.pow_succ]
      congr 2
      omega
    have hpow : (2 : Int) ^ (w + 1) = 2 * 2 ^ w := pow_succ' 2 w
    rw [wnafLoop]
    unfold wnafRest at hfits ih ⊢
    simp only [hpow, hbit]
    simp only [decide_eq_true_eq, decide_eq_false_iff_not, not_le] at hcases
    generalize wnafDigit w (j + w + 1 ≥ bits) window = digit at hcases ⊢
    generalize hhalf : (2 : Int) ^ w = half at *
    generalize k / 2 ^ (j + w + 1) = above at *
    have hsum : ((above % 2 : Nat) : Int) + 2 * (above / 2 : Nat) = above :=
      mod_cast Nat.mod_add_div above 2
    have hbits : half * (above % 2 : Nat) = 0 ∨ half * (above % 2 : Nat) = half := by
      rcases Nat.mod_two_eq_zero_or_one above with hmod | hmod <;> simp [hmod]
    have hexact : 2 * ((window - digit) / 2) = window - digit := by omega
    have hvalue : window + 2 * half * above = digit +
        2 * ((window - digit) / 2 + half * (above % 2 : Nat) + 2 * half * (above / 2 : Nat)) := by
      linear_combination 2 * half * -hsum - hexact
    generalize hnext : (window - digit) / 2 + half * (above % 2 : Nat) = next at *
    have hfits' : 2 ^ (j + 1) * (next + 2 * half * (above / 2 : Nat)) ≤ 2 ^ bits := by
      have hstep : 2 ^ (j + 1) * (next + 2 * half * (above / 2 : Nat)) =
          2 ^ j * (window + 2 * half * above - digit) := by
        rw [hvalue, pow_succ]
        ring
      rw [hstep]
      by_cases hdigit : 0 ≤ digit
      · exact (mul_le_mul_of_nonneg_left (by omega) (by positivity)).trans hfits
      · have hlt : j + w + 1 < bits ∧ digit = window - 2 * half := by omega
        have hcarry : window + 2 * half * above - digit = 2 * half * (above + 1) := by
          rw [hlt.2]
          ring
        rw [hcarry]
        exact hroom hlt.1
    rw [← hshift] at hfits' hvalue
    obtain ⟨digits, hloop, hlength, hdigits, hodd⟩ :=
      ih (by omega) (by omega) (by omega) hfits'
    refine ⟨digit :: digits, ?_, ?_, ?_, ?_⟩
    · rw [if_pos (by omega), hloop, Option.map_some]
    · rw [List.length_cons, hlength]
    · rw [hvalue, ← hdigits]
      rfl
    · rw [List.forall_mem_cons]
      refine ⟨?_, hodd⟩
      rw [abs_lt]
      omega

/-! ### Regular windows -/

/-- The window `i` of `scalar_rwnaf`: the bits from `i * w + 1` on behind a one. -/
def rwnafWindow (k w i : Nat) : Nat := 1 + 2 * (k / 2 ^ (i * w + 1) % 2 ^ w)

theorem rwnafBits_one (hk : k < 2 ^ b) : rwnafBits k b w i 1 = rwnafWindow k w (i + 1) := by
  unfold rwnafBits rwnafWindow
  generalize (i + 1) * w = start
  -- after the bit `n`, by induction on `n`
  suffices hloop : ∀ n, (List.range' 1 n).foldl (fun window j =>
      if start + j < b then window ||| getBit k (start + j) <<< j else window) 1 =
        1 + 2 * (k / 2 ^ (start + 1) % 2 ^ n) from hloop w
  intro n
  induction n with
  | zero => simp [Nat.mod_one]
  | succ n ih =>
    have hbit : getBit k (start + (1 + n)) = k / 2 ^ (start + 1) / 2 ^ n % 2 := by
      rw [getBit, Nat.div_div_eq_div_mul, ← Nat.pow_add, Nat.add_assoc]
    have hpow : 2 ^ (1 + n) = 2 * 2 ^ n := Nat.pow_add 2 1 n
    have hlt : 1 + 2 * (k / 2 ^ (start + 1) % 2 ^ n) < 2 ^ (1 + n) := by
      have := Nat.mod_lt (k / 2 ^ (start + 1)) (Nat.two_pow_pos n)
      omega
    rw [List.range'_1_concat, List.foldl_append, ih, List.foldl_cons, List.foldl_nil,
      Nat.mod_pow_succ, ← hbit]
    split
    · rw [Nat.shiftLeft_eq, Nat.mul_comm _ (2 ^ (1 + n)), Nat.or_comm,
        ← Nat.two_pow_add_eq_or_of_lt hlt, hpow]
      ring
    -- a bit at or above the size is not read, and it is zero
    · have hzero : k / 2 ^ (start + (1 + n)) = 0 :=
        Nat.div_eq_of_lt (hk.trans_le (Nat.pow_le_pow_right (by decide) (by omega)))
      rw [getBit, hzero, Nat.zero_mod, Nat.mul_zero]
      rfl

/-- **The loop** writes the digits of the window and all bits above it. -/
theorem rwnafLoop_spec (hw : 0 < w) (hk : k < 2 ^ b) {steps : Nat}
    (hfits : 2 * (k / 2 ^ (i * w + 1)) < 2 ^ (w * (steps + 1))) :
    let digits := rwnafLoop k b w steps i (rwnafWindow k w i)
    digits.length = steps + 1 ∧ signedValue (2 ^ w) digits = 1 + 2 * (k / 2 ^ (i * w + 1) : Nat) ∧
      (∀ digit ∈ digits, digit % 2 = 1 ∧ |digit| < 2 ^ w) ∧
      ∃ last, digits.getLast? = some last ∧ 0 < last := by
  have heven : 2 ^ w % 2 = 0 := Nat.mod_eq_zero_of_dvd (dvd_pow_self 2 hw.ne')
  induction steps generalizing i with
  | zero =>
    rw [Nat.zero_add, Nat.mul_one] at hfits
    have hwindow : rwnafWindow k w i = 1 + 2 * (k / 2 ^ (i * w + 1)) := by
      rw [rwnafWindow, Nat.mod_eq_of_lt (by omega)]
    simp only [rwnafLoop, hwindow, signedValue, abs_lt]
    zify at *
    simp
    omega
  | succ steps ih =>
    have hlow := Nat.mod_lt (k / 2 ^ (i * w + 1)) (Nat.two_pow_pos w)
    have hsplit := Nat.mod_add_div (k / 2 ^ (i * w + 1)) (2 ^ w)
    have hshift : k / 2 ^ ((i + 1) * w + 1) = k / 2 ^ (i * w + 1) / 2 ^ w := by
      rw [Nat.div_div_eq_div_mul, ← Nat.pow_add]
      congr 2
      ring
    have hwindow : (rwnafWindow k w i % 2 ^ (w + 1) : Nat) = rwnafWindow k w i := by
      rw [Nat.mod_eq_of_lt]
      rw [rwnafWindow, Nat.pow_succ]
      omega
    have hone : ((rwnafWindow k w i - ((rwnafWindow k w i : Int) - 2 ^ w)) / 2 ^ w).toNat = 1 := by
      rw [sub_sub_cancel, Int.ediv_self (by positivity)]
      rfl
    have hfits' : 2 * (k / 2 ^ ((i + 1) * w + 1)) < 2 ^ (w * (steps + 1)) := by
      rw [Nat.mul_succ w (steps + 1), Nat.pow_add 2 (w * (steps + 1))] at hfits
      rw [hshift, ← Nat.mul_lt_mul_right (Nat.two_pow_pos w), Nat.mul_assoc]
      exact (Nat.mul_le_mul_left 2 (Nat.div_mul_le_self _ _)).trans_lt hfits
    obtain ⟨hlength, hvalue, hdigits, last, hlast, hpos⟩ := ih hfits'
    simp only [rwnafLoop, hwindow, hone, rwnafBits_one hk]
    rw [hshift] at hvalue
    have hcast : (2 : Int) ^ w = (2 ^ w : Nat) := by push_cast; rfl
    refine ⟨by rw [List.length_cons, hlength], ?_, ?_, ?_⟩
    · rw [signedValue, List.foldr_cons, ← signedValue, hvalue, rwnafWindow, hcast]
      zify at hsplit ⊢
      linear_combination 2 * hsplit
    · rw [List.forall_mem_cons, rwnafWindow, abs_lt, hcast]
      refine ⟨?_, hcast ▸ hdigits⟩
      push_cast
      omega
    · exact ⟨last, by rw [List.getLast?_cons, hlast]; rfl, hpos⟩

theorem signedValue_drop {base digit : Int} {digits : List Int} (h : digits[i]? = some digit) :
    signedValue base (digits.drop i) = digit + base * signedValue base (digits.drop (i + 1)) := by
  obtain ⟨hi, rfl⟩ := List.getElem?_eq_some_iff.mp h
  rw [List.drop_eq_getElem_cons hi]
  rfl

/-- The digits of `scalar_rwnaf` are odd, the last is positive, and they stand for the next odd
    number from the scalar on. -/
structure IsRwnaf (k b w : Nat) (digits : List Int) : Prop where
  length : digits.length = (b + w - 1) / w
  value : signedValue (2 ^ w) digits = 1 + 2 * (k / 2 : Nat)
  digit : ∀ digit ∈ digits, digit % 2 = 1 ∧ |digit| < 2 ^ w
  last : ∃ last, digits.getLast? = some last ∧ 0 < last

theorem scalarRwnaf_isRwnaf (hw : 0 < w) (hb : 0 < b) (hk : k < 2 ^ b) :
    ∃ digits, scalarRwnaf k b w = some digits ∧ IsRwnaf k b w digits := by
  obtain ⟨steps, hsteps⟩ : ∃ steps, (b + w - 1) / w = steps + 1 :=
    Nat.exists_eq_succ_of_ne_zero (Nat.div_pos (by omega) hw).ne'
  have hstart : k % 2 ^ (w + 1) ||| 1 = rwnafWindow k w 0 := by
    have hdiv : (k % 2 ^ (w + 1) ||| 1) / 2 = k / 2 % 2 ^ w := by
      rw [Nat.or_div_two, Nat.pow_succ', Nat.mod_mul_right_div_self, Nat.or_zero]
    have hodd : (k % 2 ^ (w + 1) ||| 1) % 2 = 1 := by simp
    rw [rwnafWindow, Nat.zero_mul, Nat.zero_add, Nat.pow_one]
    omega
  have hfits : 2 * (k / 2 ^ (0 * w + 1)) < 2 ^ (w * (steps + 1)) := by
    have hceil := Nat.lt_mul_div_succ (b + w - 1) hw
    rw [hsteps, Nat.mul_succ] at hceil
    rw [Nat.zero_mul, Nat.zero_add, Nat.pow_one]
    exact (Nat.mul_div_le k 2).trans_lt (hk.trans_le (Nat.pow_le_pow_right two_pos (by omega)))
  obtain ⟨hlength, hvalue, hdigit, hlast⟩ := rwnafLoop_spec hw hk hfits
  rw [Nat.zero_mul, Nat.zero_add, Nat.pow_one] at hvalue
  exact ⟨_, by rw [scalarRwnaf, hsteps, hstart], hsteps ▸ hlength, hvalue, hdigit, hlast⟩

/-- **Scalar recodings.**  The digits of `ec_compute_wNAF` stand for the scalar and all assertions
    hold; those of `scalar_rwnaf` for at least one bit stand for the next odd number. -/
theorem scalar_recodings : (∀ w bits k, 1 ≤ w → w ≤ 7 → 0 < bits → k < 2 ^ bits →
      ∃ digits, ecComputeWnaf k bits w = some digits ∧ digits.length = bits + 1 ∧
        signedValue 2 digits = k ∧ ∀ digit ∈ digits, digit = 0 ∨ digit % 2 = 1 ∧ |digit| < 2 ^ w) ∧
    ∀ w b k, 1 ≤ w → w < 14 → 0 < b → k < 2 ^ b →
      ∃ digits, scalarRwnaf k b w = some digits ∧ digits.length = (b + w - 1) / w ∧
        (∀ digit ∈ digits, digit % 2 = 1 ∧ |digit| < 2 ^ w) ∧
        (∃ last, digits.getLast? = some last ∧ 0 < last) ∧
        signedValue (2 ^ w) digits = if k % 2 = 1 then k else k + 1 := by
  constructor
  · intro w bits k hw hw7 hbits hk
    rw [ecComputeWnaf, if_pos ⟨⟨hw, hw7⟩, hbits.ne'⟩]
    have hlow := Nat.mod_lt k (Nat.two_pow_pos (w + 1))
    have hsplit := Nat.mod_add_div k (2 ^ (w + 1))
    have hrest : wnafRest k w 0 (k % 2 ^ (w + 1) : Nat) = k := by
      rw [wnafRest, Nat.zero_add]
      zify at hsplit ⊢
      linear_combination hsplit
    have hspec := @wnafLoop_spec k bits w 0 hw hk (bits + 1) (k % 2 ^ (w + 1) : Nat) (by omega)
      (by positivity) (by rw [← pow_succ' 2 w]; exact mod_cast hlow.le)
      (by rw [hrest, pow_zero, one_mul]; exact mod_cast hk.le)
    rwa [hrest] at hspec
  · intro w b k hw _ hb hk
    obtain ⟨digits, hdigits, hlength, hvalue, hdigit, hlast⟩ := scalarRwnaf_isRwnaf hw hb hk
    refine ⟨digits, hdigits, hlength, hdigit, hlast, ?_⟩
    rw [hvalue]
    split <;> omega

/-- With no bits at all there is no window to write the last digit to. -/
theorem scalar_recodings_empty : 0 < 2 ^ 0 ∧ scalarRwnaf 0 0 1 = none := by decide

end AwsLc
