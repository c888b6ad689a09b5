import Mathlib.Data.Nat.Bitwise
import Mathlib.Data.Nat.Size
import Mathlib.NumberTheory.LegendreSymbol.JacobiSymbol

/-!
# The Jacobi symbol (`bn/jacobi.c`)

A round of `bn_jacobi` takes the factors of two out of `A`, whose symbols it reads from a table, and
exchanges `A` and `B` by quadratic reciprocity, whose sign it reads from the second bit of the low
words.
-/

namespace AwsLc

open Nat

def bnLsw (n : Nat) : UInt64 := UInt64.ofNat n

/-- `tab`, for the low word of an odd number. -/
def jacobiTab (B : Nat) : Int := [0, 1, 0, -1, 0, -1, 0, 1].getD (bnLsw B &&& 7).toNat 0

/-- The index of the first bit that is set, from `i` on.  The search of a number that is not zero
    ends before its size. -/
def firstBitSet (n i : Nat) : Nat :=
  if n.testBit i ∨ n.size ≤ i then i else firstBitSet n (i + 1)
termination_by n.size - i

theorem firstBitSet_spec {n : Nat} (hn : n ≠ 0) {i : Nat} (h : 2 ^ i ∣ n) :
    2 ^ firstBitSet n i ∣ n ∧ n / 2 ^ firstBitSet n i % 2 = 1 := by
  fun_induction firstBitSet n i with
  | case1 i hstop =>
    refine ⟨h, ?_⟩
    rcases hstop with hbit | hsize
    · simpa [testBit_eq_decide_div_mod_eq] using hbit
    · have hle := Nat.le_of_dvd (pos_of_ne_zero hn) h
      have hlt := lt_size_self n
      have hpow := Nat.pow_le_pow_right (show 0 < 2 by decide) hsize
      omega
  | case2 i hgo ih =>
    apply ih
    obtain ⟨k, rfl⟩ := h
    have hbit : ¬ (2 ^ i * k).testBit i := fun hbit => hgo (.inl hbit)
    rw [testBit_eq_decide_div_mod_eq, Nat.mul_div_cancel_left _ (Nat.two_pow_pos i),
      decide_eq_true_iff] at hbit
    rw [pow_succ]
    exact mul_dvd_mul_left _ (by omega)

/-- The sign of quadratic reciprocity: `A` has the sign bit `neg` and the absolute value `n`. -/
def reciprocityBit (neg : Bool) (n B : Nat) : Bool :=
  (if neg then ~~~bnLsw n else bnLsw n) &&& bnLsw B &&& 2 ≠ 0

def bnJacobiLoop (ret A : Int) (B : Nat) : Int :=
  if A = 0 then if B = 1 then ret else 0
  else
    let i := firstBitSet A.natAbs 0
    let n := A.natAbs >>> i
    let ret := if i % 2 = 1 then ret * jacobiTab B else ret
    let ret := if reciprocityBit (A < 0) n B then -ret else ret
    bnJacobiLoop ret (B % n : Nat) n
termination_by A.natAbs
decreasing_by
  have hzero : A ≠ 0 := by assumption
  obtain ⟨-, hodd⟩ := firstBitSet_spec (Int.natAbs_ne_zero.mpr hzero) (i := 0) (one_dvd _)
  rw [Int.natAbs_natCast, shiftRight_eq_div_pow]
  have hle := Nat.div_le_self A.natAbs (2 ^ firstBitSet A.natAbs 0)
  generalize A.natAbs / 2 ^ firstBitSet A.natAbs 0 = n at hodd hle ⊢
  exact (Nat.mod_lt B (by omega)).trans_le hle

def bnJacobi (a b : Int) : Int :=
  if b % 2 = 0 then -2
  else if b < 0 then -2
  else bnJacobiLoop 1 a b.natAbs

theorem jacobiTab_eq {B : Nat} (hB : Odd B) : jacobiTab B = jacobiSym 2 B := by
  have hlow : (bnLsw B &&& 7).toNat = B % 8 := by
    rw [UInt64.toNat_and, bnLsw, UInt64.toNat_ofNat']
    show _ &&& (2 ^ 3 - 1) = _
    rw [and_two_pow_sub_one_eq_mod]
    omega
  have hodd := odd_iff.mp hB
  rw [jacobiSym.at_two hB, ZMod.χ₈_nat_eq_if_mod_eight, jacobiTab, hlow, if_neg (by omega)]
  have hcases : B % 8 = 1 ∨ B % 8 = 3 ∨ B % 8 = 5 ∨ B % 8 = 7 := by omega
  rcases hcases with h | h | h | h <;> rw [h] <;> rfl

theorem reciprocityBit_eq (neg : Bool) (n B : Nat) :
    reciprocityBit neg n B = ((n.testBit 1 != neg) && B.testBit 1) := by
  have hbit : ∀ x : UInt64, decide (x &&& 2 ≠ 0) = x.toNat.testBit 1 := by
    intro x
    have hand : (x &&& 2).toNat = (x.toNat.testBit 1).toNat * 2 :=
      (UInt64.toNat_and x 2).trans (and_two_pow x.toNat 1)
    simp only [ne_eq, ← UInt64.toNat_inj, hand]
    cases x.toNat.testBit 1 <;> rfl
  have hlow : ∀ m, (bnLsw m).toNat.testBit 1 = m.testBit 1 := by
    intro m
    rw [bnLsw, UInt64.toNat_ofNat', testBit_mod_two_pow]
    rfl
  have hnot : (~~~bnLsw n).toNat.testBit 1 = !n.testBit 1 := by
    rw [UInt64.toNat_not, ← hlow n, UInt64.size, Nat.sub_sub, Nat.add_comm 1,
      testBit_two_pow_sub_succ (bnLsw n).toNat_lt]
    rfl
  rw [reciprocityBit, hbit, UInt64.toNat_and, testBit_and, hlow B]
  cases neg
  · simp [hlow]
  · rw [if_pos rfl, hnot]
    cases n.testBit 1 <;> rfl

theorem testBit_one_of_odd {n : Nat} (hn : Odd n) : n.testBit 1 = decide (n % 4 = 3) := by
  have hodd := odd_iff.mp hn
  rw [testBit_eq_decide_div_mod_eq, decide_eq_decide]
  omega

theorem jacobiSym_exchange (neg : Bool) {n B : Nat} (hn : Odd n) (hB : Odd B) :
    jacobiSym (if neg then -n else n) B =
      if reciprocityBit neg n B then -jacobiSym (B % n : Nat) n else jacobiSym (B % n : Nat) n := by
  have hodd := odd_iff.mp hB
  have hone : B % 4 = 1 ↔ ¬ B % 4 = 3 := by omega
  rw [Int.natCast_mod, ← jacobiSym.mod_left, reciprocityBit_eq, testBit_one_of_odd hn,
    testBit_one_of_odd hB]
  have hpos := jacobiSym.quadratic_reciprocity_if (odd_iff.mp hn) hodd
  cases neg
  · simp [← hpos]
  · have hneg : jacobiSym (-n) B = (if B % 4 = 3 then -1 else 1) * jacobiSym n B := by
      rw [jacobiSym.neg _ hB, ZMod.χ₄_nat_eq_if_mod_four, if_neg (by omega)]
      simp [hone]
    simp only [if_true, hneg, ← hpos]
    by_cases hn4 : n % 4 = 3 <;> by_cases hB4 : B % 4 = 3 <;> simp [hn4, hB4]

/-- A number that is not zero, without its factors of two. -/
theorem jacobiSym_strip {A : Int} (hzero : A ≠ 0) {B : Nat} (hB : Odd B) :
    let i := firstBitSet A.natAbs 0
    let n := A.natAbs >>> i
    Odd n ∧ jacobiSym A B =
      (if i % 2 = 1 then jacobiTab B else 1) * jacobiSym (if decide (A < 0) then -n else n) B := by
  intro i n
  obtain ⟨hdvd, hodd⟩ := firstBitSet_spec (Int.natAbs_ne_zero.mpr hzero) (i := 0) (one_dvd _)
  have hn : n = A.natAbs / 2 ^ i := shiftRight_eq_div_pow _ _
  have habs : A.natAbs = 2 ^ i * n := by rw [hn, Nat.mul_div_cancel' hdvd]
  refine ⟨odd_iff.mpr (hn ▸ hodd), ?_⟩
  have hA : A = 2 ^ i * (if decide (A < 0) then -(n : Int) else n) := by
    have hcast : (A.natAbs : Int) = 2 ^ i * n := by exact_mod_cast habs
    split
    · next hneg =>
      rw [decide_eq_true_iff] at hneg
      rw [mul_neg, ← hcast]
      omega
    · next hneg =>
      rw [decide_eq_true_iff] at hneg
      rw [← hcast]
      omega
  have htwo : jacobiSym 2 B ^ i = if i % 2 = 1 then jacobiTab B else 1 := by
    have hsq := jacobiSym.sq_one (a := 2) (b := B) (by
      exact (Int.gcd_natCast_natCast 2 B).trans (coprime_two_left.mpr hB))
    rw [← jacobiTab_eq hB] at hsq ⊢
    rw [← Nat.div_add_mod i 2, pow_add, pow_mul, hsq, one_pow, one_mul]
    rcases mod_two_eq_zero_or_one i with h | h <;> simp [h]
  conv_lhs => rw [hA]
  rw [jacobiSym.mul_left, jacobiSym.pow_left, htwo]

/-- The loop returns the symbol, with the sign that it has collected. -/
theorem bnJacobiLoop_eq (ret A : Int) {B : Nat} (hB : Odd B) :
    bnJacobiLoop ret A B = ret * jacobiSym A B := by
  fun_induction bnJacobiLoop ret A B with
  | case1 ret => rw [jacobiSym.one_right, mul_one]
  | case2 ret B hone =>
    have hpos := hB.pos
    rw [jacobiSym.zero_left (by omega), mul_zero]
  | case3 ret A B hzero i n ret' ret'' ih =>
    obtain ⟨hn, hsymbol⟩ := jacobiSym_strip hzero hB
    change Odd n at hn
    rw [ih hn, hsymbol]
    change _ = _ * ((if i % 2 = 1 then _ else _) * jacobiSym (if decide (A < 0) then -n else n) B)
    rw [jacobiSym_exchange _ hn hB]
    unfold ret'' ret'
    split <;> split <;> ring

/-- **`bn_jacobi` computes the Jacobi symbol.**  It returns for every number and every positive
    odd modulus, and refuses all others. -/
theorem bn_jacobi_symbol (a b : Int) : (0 < b → Odd b → bnJacobi a b = jacobiSym a b.natAbs) ∧
      (b < 0 ∨ ¬ Odd b → bnJacobi a b = -2) := by
  rw [Int.odd_iff]
  constructor
  · intro hpos hodd
    have hnat : Odd b.natAbs := Int.natAbs_odd.mpr (Int.odd_iff.mpr hodd)
    rw [bnJacobi, if_neg (by omega), if_neg (by omega), bnJacobiLoop_eq 1 a hnat, one_mul]
  · intro hbad
    rw [bnJacobi]
    split
    · rfl
    · rw [if_pos (by omega)]

end AwsLc
