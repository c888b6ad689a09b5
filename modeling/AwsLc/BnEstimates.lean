import Mathlib.Algebra.Order.Ring.Unbundled.Basic
import Mathlib.Data.Nat.Size
import Mathlib.Tactic.Ring

/-!
# Quotients and roots from estimates (`bn/exponentiation.c`, `bn/sqrt.c`)

`BN_div_recp` multiplies with a reciprocal that is kept for the next numbers of the same size,
and corrects the quotient that this gives.  `BN_sqrt` takes Newton's steps for as long as the
square of its estimate comes closer to the number.
-/

namespace AwsLc

open Nat

inductive BnReason where
  | divByZero
  | arg2LtArg3
  | badReciprocal
  | mallocFailure
  | negativeNumber
  | notASquare
deriving DecidableEq, Repr

/-- `BN_div` for the quotient of numbers that are not negative. -/
def bnDiv (numerator divisor : Nat) : Except BnReason Nat :=
  if divisor = 0 then .error .divByZero else .ok (numerator / divisor)

def bnUsub (a b : Nat) : Except BnReason Nat :=
  if a < b then .error .arg2LtArg3 else .ok (a - b)

/-! ### Division with a reciprocal -/

/-- `BN_RECP_CTX`; only the size of the reciprocal matters, not its sign. -/
structure BnRecpCtx where
  N : Int
  Nr : Nat
  numBits : Nat
  shift : Int

namespace BnRecpCtx

/-- `BN_RECP_CTX_init`. -/
def init : BnRecpCtx := ⟨0, 0, 0, 0⟩

/-- `BN_RECP_CTX_set`. -/
def set (d : Int) : BnRecpCtx := ⟨d, 0, d.natAbs.size, 0⟩

variable (recp : BnRecpCtx)

def precision (m : Int) : Nat := max m.natAbs.size (recp.numBits * 2)

/-- The context with a reciprocal of precision `i`, by `BN_reciprocal` if it has another one;
    `alloc` says whether there is memory for it. -/
def withPrecision (i : Nat) (alloc : Bool) : BnRecpCtx :=
  if i = recp.shift then recp
  else
    match if alloc then bnDiv (2 ^ i) recp.N.natAbs else .error .mallocFailure with
    | .ok Nr => { recp with Nr, shift := i }
    | .error _ => { recp with shift := -1 }

def estimate (i m : Nat) : Nat :=
  ((m >>> recp.numBits) * recp.Nr) >>> (i - recp.numBits)

/-- The last loop of `BN_div_recp`, with `left` corrections that it may make. -/
def correct (N : Nat) (left d r : Nat) : Except BnReason (Nat × Nat) :=
  if r < N then .ok (d, r)
  else
    match left with
    | 0 => .error .badReciprocal
    | left + 1 => do
      let r ← bnUsub r N
      correct N left (d + 1) r

/-- `BN_div_recp`: the quotient and the remainder, and the context. -/
def divRecp (m : Int) (alloc : Bool) : Except BnReason (Int × Int) × BnRecpCtx :=
  let N := recp.N.natAbs
  if m.natAbs < N then (.ok (0, m), recp)
  else
    let i := recp.precision m
    let recp := recp.withPrecision i alloc
    if recp.shift = -1 then (.error (if alloc then .divByZero else .mallocFailure), recp)
    else
      let result := do
        let d := recp.estimate i m.natAbs
        let r ← bnUsub m.natAbs (N * d)
        let (d, r) ← correct N 3 d r
        .ok (if (decide (m < 0)).xor (decide (recp.N < 0)) then -(d : Int) else d,
          if m < 0 then -(r : Int) else r)
      (result, recp)

/-- The contexts that calls leave, whatever was divided and whether there was memory. -/
inductive Reachable : BnRecpCtx → Prop
  | init : Reachable init
  | set (d : Int) : Reachable (set d)
  | divRecp {recp : BnRecpCtx} (m : Int) (alloc : Bool) :
      Reachable recp → Reachable (recp.divRecp m alloc).2

/-- The context knows the size of its divisor, and its reciprocal if it has one. -/
structure Holds (recp : BnRecpCtx) : Prop where
  numBits_eq : recp.numBits = recp.N.natAbs.size
  reciprocal : ∀ i : Nat, 0 < i → recp.shift = i → recp.Nr = 2 ^ i / recp.N.natAbs

variable {recp : BnRecpCtx}

theorem Holds.withPrecision (h : recp.Holds) (i : Nat) (alloc : Bool) :
    (recp.withPrecision i alloc).Holds := by
  unfold BnRecpCtx.withPrecision
  split
  · exact h
  · split
    · next Nr hdiv =>
      refine ⟨h.numBits_eq, ?_⟩
      intro j _ hj
      obtain rfl : i = j := Int.ofNat_inj.mp hj
      split at hdiv
      · unfold bnDiv at hdiv
        split at hdiv
        · cases hdiv
        · cases hdiv
          rfl
      · cases hdiv
    · refine ⟨h.numBits_eq, ?_⟩
      intro j _ (hj : -1 = (j : Int))
      omega

theorem Reachable.holds (h : recp.Reachable) : recp.Holds := by
  induction h with
  | init => exact ⟨rfl, fun i hi (hshift : 0 = (i : Int)) => absurd hshift (by omega)⟩
  | set d => exact ⟨rfl, fun i hi (hshift : 0 = (i : Int)) => absurd hshift (by omega)⟩
  | @divRecp recp m alloc _ ih =>
    unfold BnRecpCtx.divRecp
    dsimp only
    split
    · exact ih
    · split <;> exact ih.withPrecision _ alloc

/-- **The estimate of a quotient.**  With `m` cut after the bits of `P` and the reciprocal cut
    after `P * Q`, at most three multiples of `N` are missing. -/
theorem reciprocal_estimate {m N P Q : Nat} (hN : 0 < N) (hP : 0 < P) (hQ : 0 < Q)
    (hm : m < P * Q) (hPN : P ≤ 2 * N) :
    m / P * (P * Q / N) / Q * N ≤ m ∧ m < (m / P * (P * Q / N) / Q + 4) * N := by
  have hpos : 0 < P * Q := Nat.mul_pos hP hQ
  have hcut := div_add_mod m P
  have hrecip := div_add_mod (P * Q) N
  have hquot := div_add_mod (m / P * (P * Q / N)) Q
  have hcutLt := mod_lt m hP
  have hrecipLt := mod_lt (P * Q) hN
  have hquotLt := mod_lt (m / P * (P * Q / N)) hQ
  generalize m / P = a at *
  generalize m % P = a' at *
  generalize P * Q / N = R at *
  generalize P * Q % N = R' at *
  generalize a * R / Q = d at *
  generalize a * R % Q = d' at *
  have hexpand : m * (P * Q) = d * N * (P * Q) + (P * N * d' + P * a * R' + a' * (P * Q)) := by
    calc m * (P * Q) = P * a * (N * R + R') + a' * (P * Q) := by rw [hrecip, ← hcut]; ring
      _ = P * N * (a * R) + P * a * R' + a' * (P * Q) := by ring
      _ = _ := by rw [← hquot]; ring
  constructor
  · apply Nat.le_of_mul_le_mul_right _ hpos
    omega
  · apply Nat.lt_of_mul_lt_mul_right (a := P * Q)
    have hd' : P * N * d' < P * N * Q := Nat.mul_lt_mul_of_pos_left hquotLt (Nat.mul_pos hP hN)
    have hR' : P * a * R' ≤ P * Q * N := Nat.mul_le_mul (by omega) (by omega)
    have ha' : a' * (P * Q) ≤ 2 * N * (P * Q) := Nat.mul_le_mul_right _ (by omega)
    calc m * (P * Q) < d * N * (P * Q) + (P * N * Q + P * Q * N + 2 * N * (P * Q)) := by omega
      _ = (d + 4) * N * (P * Q) := by ring

theorem correct_eq {N : Nat} (hN : 0 < N) {left d r : Nat} (h : r < (left + 1) * N) :
    correct N left d r = .ok (d + r / N, r % N) := by
  induction left generalizing d r with
  | zero =>
    have hlt : r < N := by omega
    rw [correct, if_pos hlt, div_eq_of_lt hlt, mod_eq_of_lt hlt, add_zero]
  | succ left ih =>
    rw [correct]
    by_cases hlt : r < N
    · rw [if_pos hlt, div_eq_of_lt hlt, mod_eq_of_lt hlt, add_zero]
    · have hrest : r - N < (left + 1) * N := by
        rw [succ_mul] at h
        omega
      rw [if_neg hlt, bnUsub, if_neg hlt]
      refine (ih hrest).trans ?_
      rw [mod_eq_sub_mod (not_lt.mp hlt), div_eq_sub_div hN (not_lt.mp hlt),
        add_right_comm, add_assoc d]

/-- The estimate of a context that has the right reciprocal. -/
theorem Holds.estimate (h : recp.Holds) {N m : Nat} (hN : recp.N = N) (hpos : 0 < N)
    (hshift : recp.shift = recp.precision m) : recp.estimate (recp.precision m) m * N ≤ m ∧
      m < (recp.estimate (recp.precision m) m + 4) * N := by
  have habs : recp.N.natAbs = N := by rw [hN, Int.natAbs_natCast]
  have hbits : recp.numBits = N.size := habs ▸ h.numBits_eq
  have hsize : 0 < N.size := Nat.size_pos.mpr hpos
  obtain ⟨k, hk⟩ : ∃ k, recp.precision m = N.size + k :=
    Nat.exists_eq_add_of_le (by rw [precision, hbits]; omega)
  have hrecip := h.reciprocal _ (by rw [hk]; omega) hshift
  have hm : m < 2 ^ recp.precision m := by
    refine (Nat.lt_size_self m).trans_le (Nat.pow_le_pow_right two_pos ?_)
    exact Nat.le_max_left m.size _
  have hdouble : 2 ^ N.size ≤ 2 * N := by
    have hle : 2 ^ (N.size - 1) ≤ N := Nat.lt_size.mp (by omega)
    rw [← Nat.two_pow_pred_mul_two hsize, Nat.mul_comm]
    exact Nat.mul_le_mul_left 2 hle
  rw [BnRecpCtx.estimate, hrecip, habs, hbits, hk, Nat.add_sub_cancel_left,
    Nat.shiftRight_eq_div_pow, Nat.shiftRight_eq_div_pow, Nat.pow_add]
  rw [hk, Nat.pow_add] at hm
  exact reciprocal_estimate hpos (Nat.two_pow_pos _) (Nat.two_pow_pos _) hm hdouble

end BnRecpCtx

/-- **Division with a reciprocal.**  In every context that calls leave, the quotient and the
    remainder are exact: the estimate is at most three too small, so that the subtraction does
    not fail and the corrections suffice. -/
theorem bn_div_recp_exact {recp : BnRecpCtx} (h : recp.Reachable) {N : Nat} (hN : recp.N = N)
    (hpos : 0 < N) (m : Nat) :
    (recp.divRecp m true).1 = .ok ((m / N : Nat), (m % N : Nat)) ∧
    (N ≤ m →
      let d := (recp.withPrecision (recp.precision m) true).estimate (recp.precision m) m
      d ≤ m / N ∧ m / N ≤ d + 3) := by
  have habs : recp.N.natAbs = N := by rw [hN, Int.natAbs_natCast]
  have hholds := h.holds.withPrecision (recp.precision m) true
  -- the new context has the same divisor, and the reciprocal of the precision
  have hnew : (recp.withPrecision (recp.precision m) true).N = N ∧
      (recp.withPrecision (recp.precision m) true).precision m = recp.precision m ∧
      (recp.withPrecision (recp.precision m) true).shift = recp.precision m := by
    rw [BnRecpCtx.withPrecision]
    split
    · next hshift => exact ⟨hN, rfl, hshift.symm⟩
    · rw [if_pos rfl, bnDiv, if_neg (by omega)]
      exact ⟨hN, rfl, rfl⟩
  obtain ⟨hN', hprecision, hshift⟩ := hnew
  have hestimate := hholds.estimate (m := m) hN' hpos (by rw [hshift, hprecision])
  rw [hprecision] at hestimate
  rw [BnRecpCtx.divRecp]
  dsimp only
  generalize hd : (recp.withPrecision (recp.precision m) true).estimate (recp.precision m) m = d
    at *
  obtain ⟨hle, hlt⟩ := hestimate
  constructor
  · rw [habs, Int.natAbs_natCast]
    split
    · next hsmall => rw [div_eq_of_lt hsmall, mod_eq_of_lt hsmall]; rfl
    · rw [hshift, if_neg (by omega), hN']
      dsimp only
      rw [hd, bnUsub, if_neg (by rw [Nat.mul_comm]; omega)]
      have hcorrect : BnRecpCtx.correct N 3 d (m - N * d) = _ :=
        BnRecpCtx.correct_eq hpos (by rw [Nat.mul_comm N d]; rw [add_mul] at hlt; omega)
      change (do
        let (d, r) ← BnRecpCtx.correct N 3 d (m - N * d)
        Except.ok (_, _)) = _
      rw [hcorrect]
      have hquot : d + (m - N * d) / N = m / N := by
        have hge := (Nat.le_div_iff_mul_le hpos).mpr hle
        rw [Nat.sub_mul_div, Nat.add_sub_cancel' hge]
      have hrem : (m - N * d) % N = m % N := Nat.sub_mul_mod (by rw [Nat.mul_comm]; exact hle)
      have hsigns : ¬((m : Int) < 0) ∧ ¬((N : Int) < 0) := by omega
      rw [hquot, hrem]
      simp [hsigns, bind, Except.bind]
  · intro _
    refine ⟨(Nat.le_div_iff_mul_le hpos).mpr hle, ?_⟩
    have := (div_lt_iff_lt_mul hpos).mpr hlt
    omega

/-- 100 is divided by 7 after 50 was, with the reciprocal of another precision. -/
theorem bn_div_recp_exact_hundred :
    (((BnRecpCtx.set 7).divRecp 50 true).2.divRecp 100 true).1 = .ok (14, 2) :=
  (bn_div_recp_exact (.divRecp 50 true (.set 7)) (N := 7) rfl (by decide) 100).1

/-! ### Square roots -/

def bnSqrtNext (n estimate : Nat) : Except BnReason Nat := do
  let quotient ← bnDiv n estimate
  .ok ((quotient + estimate) / 2)

/-- `delta`: how far the square of an estimate is from the number. -/
def bnSqrtDelta (n estimate : Nat) : Nat := ((n : Int) - (estimate ^ 2 : Nat)).natAbs

/-- The loop of `BN_sqrt`, after its first round. -/
def bnSqrtLoop (n estimate lastDelta : Nat) : Except BnReason Nat := do
  let estimate ← bnSqrtNext n estimate
  if lastDelta ≤ bnSqrtDelta n estimate then .ok estimate
  else bnSqrtLoop n estimate (bnSqrtDelta n estimate)
termination_by lastDelta

def bnSqrt (value : Int) : Except BnReason Nat := do
  if value < 0 then .error .negativeNumber
  else if value = 0 then .ok 0
  else
    let n := value.natAbs
    let first ← bnSqrtNext n (2 ^ (n.size / 2))
    let estimate ← bnSqrtLoop n first (bnSqrtDelta n first)
    if estimate ^ 2 ≠ n then .error .notASquare else .ok estimate

theorem except_ok_bind {α β : Type} (value : α) (next : α → Except BnReason β) :
    (do let x ← Except.ok value; next x) = next value := rfl

variable {estimate : Nat}

theorem bnSqrtNext_eq (n : Nat) (h : 0 < estimate) :
    bnSqrtNext n estimate = .ok ((n / estimate + estimate) / 2) := by
  rw [bnSqrtNext, bnDiv, if_neg (by omega)]
  rfl

theorem newton_pos {n : Nat} (hn : 0 < n) (h : 0 < estimate) :
    0 < (n / estimate + estimate) / 2 := by
  have hone : estimate = 1 → 1 ≤ n / estimate := by
    rintro rfl
    omega
  generalize n / estimate = quotient at hone ⊢
  omega

/-- The estimates do not come to zero, so that the loop ends with one. -/
theorem exists_bnSqrtLoop {n : Nat} (hn : 0 < n) (h : 0 < estimate) (lastDelta : Nat) :
    ∃ root, bnSqrtLoop n estimate lastDelta = .ok root := by
  induction lastDelta using Nat.strong_induction_on generalizing estimate with
  | _ lastDelta ih =>
    rw [bnSqrtLoop, bnSqrtNext_eq n h, except_ok_bind]
    split
    · exact ⟨_, rfl⟩
    · exact ih _ (by omega) (newton_pos hn h)

theorem le_newton (s : Nat) (h : 0 < estimate) : s ≤ (s ^ 2 / estimate + estimate) / 2 := by
  rw [Nat.le_div_iff_mul_le two_pos]
  rcases Nat.le_total (s * 2) estimate with hle | hle
  · exact hle.trans (Nat.le_add_left _ _)
  · obtain ⟨rest, hrest⟩ := Nat.exists_eq_add_of_le hle
    have hmul : 4 * estimate * rest ≤ (s * 2) ^ 2 := hrest ▸ four_mul_le_sq_add estimate rest
    have hquot : rest ≤ s ^ 2 / estimate := by
      rw [Nat.le_div_iff_mul_le h]
      have hcomm : 4 * estimate * rest = 4 * (rest * estimate) := by ring
      have hsquare : (s * 2) ^ 2 = 4 * s ^ 2 := by ring
      omega
    omega

theorem newton_lt {s : Nat} (h : s < estimate) : (s ^ 2 / estimate + estimate) / 2 < estimate := by
  have hquot : s ^ 2 / estimate < estimate := by
    apply Nat.div_lt_of_lt_mul
    rw [Nat.pow_two]
    exact Nat.mul_lt_mul'' h h
  omega

/-- From above the root of a square, each step comes closer, down to the root. -/
theorem bnSqrtLoop_square {s : Nat} (hs : 0 < s) (h : s ≤ estimate) :
    bnSqrtLoop (s ^ 2) estimate (bnSqrtDelta (s ^ 2) estimate) = .ok s := by
  induction estimate using Nat.strong_induction_on with
  | _ estimate ih =>
    have hpos : 0 < estimate := hs.trans_le h
    rw [bnSqrtLoop, bnSqrtNext_eq _ hpos, except_ok_bind]
    rcases Nat.eq_or_lt_of_le h with rfl | hlt
    · have hself : (s ^ 2 / s + s) / 2 = s := by
        rw [Nat.pow_two, Nat.mul_div_cancel _ hs]
        omega
      rw [hself, if_pos (Nat.le_refl _)]
    · have hge := le_newton s hpos
      have hdown := newton_lt hlt
      generalize (s ^ 2 / estimate + estimate) / 2 = next at hge hdown ⊢
      have hcloser : bnSqrtDelta (s ^ 2) next < bnSqrtDelta (s ^ 2) estimate := by
        have hnext := Nat.pow_le_pow_left hge 2
        have hestimate := Nat.pow_lt_pow_left hdown two_ne_zero
        simp only [bnSqrtDelta]
        omega
      rw [if_neg (by omega)]
      exact ih next hdown hge

/-- **Square roots.**  The loop ends for every number, and the result is the root of a perfect
    square, or the number is none. -/
theorem bn_sqrt_perfect (n : Nat) : (∃ root, root ^ 2 = n ∧ bnSqrt n = .ok root) ∨
      (∀ s : Nat, s ^ 2 ≠ n) ∧ bnSqrt n = .error .notASquare := by
  rcases Nat.eq_zero_or_pos n with rfl | hn
  · exact .inl ⟨0, rfl, rfl⟩
  have hfirst : 0 < 2 ^ (n.size / 2) := Nat.two_pow_pos _
  generalize hnext : (n / 2 ^ (n.size / 2) + 2 ^ (n.size / 2)) / 2 = first
  have hsqrt : bnSqrt n = (do
      let estimate ← bnSqrtLoop n first (bnSqrtDelta n first)
      if estimate ^ 2 ≠ n then .error .notASquare else .ok estimate) := by
    rw [bnSqrt, if_neg (by omega), if_neg (by omega), Int.natAbs_natCast]
    dsimp only
    rw [bnSqrtNext_eq n hfirst, hnext, except_ok_bind]
  by_cases hsquare : ∃ s : Nat, s ^ 2 = n
  · obtain ⟨s, rfl⟩ := hsquare
    have hs : 0 < s := pos_of_ne_zero (by rintro rfl; omega)
    refine .inl ⟨s, rfl, ?_⟩
    rw [hsqrt, bnSqrtLoop_square hs (hnext ▸ le_newton s hfirst)]
    exact if_neg (fun hne => hne rfl)
  · refine .inr ⟨fun s hs => hsquare ⟨s, hs⟩, ?_⟩
    obtain ⟨root, hroot⟩ := exists_bnSqrtLoop hn (hnext ▸ newton_pos hn hfirst)
      (bnSqrtDelta n first)
    rw [hsqrt, hroot]
    exact if_pos (fun heq => hsquare ⟨root, heq⟩)

end AwsLc
