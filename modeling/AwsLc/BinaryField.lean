import Mathlib.Algebra.CharP.Two
import Mathlib.Algebra.Field.ZMod
import Mathlib.Data.ZMod.Basic
import Mathlib.RingTheory.AdjoinRoot

/-!
# Bits as polynomials

The bits of a word are the coefficients of a polynomial over the field of two elements, the least
significant bit that of degree zero.  `mulX` is the usual doubling with reduction, and
`mulX_class` says that it multiplies the residue class by `x`.
-/

namespace AwsLc.BinaryField

open Polynomial

variable {w : Nat}

def coefficient (bit : Bool) : ZMod 2 := if bit then 1 else 0

noncomputable def poly (word : BitVec w) : (ZMod 2)[X] :=
  ∑ i ∈ Finset.range w, C (coefficient (word.getLsbD i)) * X ^ i

def mulX (low word : BitVec w) : BitVec w :=
  (word <<< 1) ^^^ (if word.msb then low else 0)

theorem coeff_poly (word : BitVec w) (d : Nat) :
    (poly word).coeff d = coefficient (word.getLsbD d) := by
  simp only [poly, finsetSum_coeff, coeff_C_mul, coeff_X_pow, mul_ite, mul_one, mul_zero]
  rw [Finset.sum_ite_eq]
  by_cases hd : d < w
  · rw [if_pos (Finset.mem_range.mpr hd)]
  · rw [if_neg (fun h => hd (Finset.mem_range.mp h)), BitVec.getLsbD_of_ge word d (by omega)]
    rfl

theorem coefficient_xor (a b : Bool) : coefficient (a ^^ b) = coefficient a + coefficient b := by
  cases a <;> cases b <;> decide

theorem poly_xor (a b : BitVec w) : poly (a ^^^ b) = poly a + poly b := by
  ext d
  rw [coeff_add, coeff_poly, coeff_poly, coeff_poly, BitVec.getLsbD_xor, coefficient_xor]

theorem poly_zero : poly (0#w) = 0 := by
  ext d
  rw [coeff_poly, coeff_zero]
  simp [coefficient]

/-- A shift by one, and the coefficient that it drops. -/
theorem poly_twoPow {i : Nat} (hi : i < w) : poly (BitVec.twoPow w i) = X ^ i := by
  ext d
  rw [coeff_poly, BitVec.getLsbD_twoPow, coeff_X_pow, decide_eq_true hi, Bool.true_and]
  simp [coefficient, eq_comm]

theorem poly_shiftLeft_one (hw : 0 < w) (word : BitVec w) :
    poly (word <<< 1) + C (coefficient word.msb) * X ^ w = X * poly word := by
  ext d
  rw [coeff_add, coeff_C_mul, coeff_X_pow, coeff_poly, BitVec.getLsbD_shiftLeft]
  cases d with
  | zero =>
    rw [coeff_X_mul_zero, if_neg hw.ne]
    simp [coefficient]
  | succ d =>
    rw [coeff_X_mul, coeff_poly]
    by_cases hlt : d + 1 < w
    · have hne : ¬ d + 1 = w := by omega
      simp [hlt, hne]
    · by_cases heq : d + 1 = w
      · have hmsb : word.msb = word.getLsbD d := by
          rw [BitVec.msb_eq_getLsbD_last]
          congr 1
          omega
        simp [heq, hmsb, coefficient]
      · rw [BitVec.getLsbD_of_ge word d (by omega)]
        simp [hlt, heq, coefficient]

/-- **Multiplication by `x`.**  Modulo `X ^ w` and the low coefficients. -/
theorem mulX_class (hw : 0 < w) {modulus : (ZMod 2)[X]} {low : BitVec w}
    (hmodulus : modulus = X ^ w + poly low) (word : BitVec w) :
    AdjoinRoot.mk modulus (poly (mulX low word)) =
      AdjoinRoot.root modulus * AdjoinRoot.mk modulus (poly word) := by
  subst hmodulus
  have hshift := poly_shiftLeft_one hw word
  rw [← AdjoinRoot.mk_X, ← map_mul, AdjoinRoot.mk_eq_mk, ← hshift, mulX, poly_xor]
  cases hmsb : word.msb with
  | false => simp [coefficient, poly_zero]
  | true =>
    refine ⟨1, ?_⟩
    have hdifference : poly (word <<< 1) + poly low - (poly (word <<< 1) + C 1 * X ^ w) =
        poly low - X ^ w := by
      rw [C_1]
      ring
    rw [if_pos rfl, coefficient, if_pos rfl, hdifference, CharTwo.sub_eq_add]
    ring

end AwsLc.BinaryField
