import AwsLc.EcOct
import Mathlib.Algebra.BigOperators.Fin

/-!
# Many points at once in affine coordinates (`ec_montgomery.c`)

One inversion serves all points.  A first pass leaves the products of the `Z` coordinates in the
`X` coordinates of the output, and a second one, from the last point to the first, reads each
product before it writes over the one after it.
-/

namespace AwsLc

open Finset Function

variable {p : Nat} (inp : Nat → EcJacobian (ZMod p))

abbrev AffineCells (p : Nat) : Type := Nat → EcAffine (ZMod p)

/-- The first loop, up to the index `i`. -/
def prefixProducts : Nat → AffineCells p → AffineCells p
  | 0, out => update out 0 { out 0 with X := (inp 0).Z }
  | i + 1, out =>
    let out := prefixProducts i out
    update out (i + 1) { out (i + 1) with X := (out i).X * (inp (i + 1)).Z }

/-- The coordinates that are stored for the point `i`, by the inverse of its `Z`. -/
def storeAffine (i : Nat) (zinv : ZMod p) (out : AffineCells p) : AffineCells p :=
  let zinv2 := zinv ^ 2
  let out := update out i { out i with X := (inp i).X * zinv2 }
  let out := update out i { out i with Y := (inp i).Y * zinv2 }
  update out i { out i with Y := (out i).Y * zinv }

/-- The second loop, from the index `i` on. -/
def convertDown : Nat → ZMod p → AffineCells p → AffineCells p
  | 0, zinvprod, out => storeAffine inp 0 zinvprod out
  | i + 1, zinvprod, out =>
    let zinv := zinvprod * (out i).X
    convertDown i (zinvprod * (inp (i + 1)).Z) (storeAffine inp (i + 1) zinv out)

def ecGfpMontJacobianToAffineBatch (out : AffineCells p) : Nat → Bool × AffineCells p
  | 0 => (true, out)
  | n + 1 =>
    let out := prefixProducts inp n out
    if (out n).X = 0 then (false, out) else (true, convertDown inp n (out n).X⁻¹ out)

variable {inp} {i : Nat} {zinv : ZMod p} {out : AffineCells p}

theorem prefixProducts_apply {n : Nat} (h : i ≤ n) :
    (prefixProducts inp n out i).X = ∏ j ∈ range (i + 1), (inp j).Z := by
  induction n generalizing i with
  | zero =>
    obtain rfl : i = 0 := by omega
    simp [prefixProducts]
  | succ n ih =>
    rcases eq_or_ne i (n + 1) with rfl | hi
    · simp [prefixProducts, ih (le_refl n), prod_range_succ _ (n + 1)]
    · rw [prefixProducts, update_of_ne hi, ih (by omega)]

theorem storeAffine_of_ne {j : Nat} (h : j ≠ i) : storeAffine inp i zinv out j = out j := by
  simp [storeAffine, h]

variable [Fact p.Prime]

theorem storeAffine_apply (h : zinv * (inp i).Z = 1) :
    some (storeAffine inp i zinv out i) = ecJacobianToAffine (inp i) := by
  have hz : (inp i).Z ≠ 0 := right_ne_zero_of_mul_eq_one h
  have hzinv : (inp i).Z⁻¹ = zinv := (eq_inv_of_mul_eq_one_left h).symm
  simp [storeAffine, ecJacobianToAffine, hz, hzinv, mul_assoc]

/-- The second loop.  The invariant is that the running value is the inverse of the product up to
    the index, and that the products before the index are still there. -/
theorem convertDown_apply {n : Nat} {zinvprod : ZMod p}
    (hinv : zinvprod * ∏ j ∈ range (n + 1), (inp j).Z = 1)
    (hproducts : ∀ i < n, (out i).X = ∏ j ∈ range (i + 1), (inp j).Z) (i : Nat) :
    (i ≤ n → some (convertDown inp n zinvprod out i) = ecJacobianToAffine (inp i)) ∧
      (n < i → convertDown inp n zinvprod out i = out i) := by
  induction n generalizing zinvprod out with
  | zero =>
    rw [prod_range_one] at hinv
    refine ⟨fun hi => ?_, fun hi => storeAffine_of_ne (by omega)⟩
    obtain rfl : i = 0 := by omega
    exact storeAffine_apply hinv
  | succ n ih =>
    have hzinv : zinvprod * (out n).X * (inp (n + 1)).Z = 1 := by
      rw [hproducts n n.lt_succ_self, mul_assoc, ← prod_range_succ, hinv]
    have hnext : zinvprod * (inp (n + 1)).Z * ∏ j ∈ range (n + 1), (inp j).Z = 1 := by
      rw [mul_right_comm, mul_assoc, ← prod_range_succ, hinv]
    have hrest := @ih (storeAffine inp (n + 1) (zinvprod * (out n).X) out) _ hnext fun j hj => by
      rw [storeAffine_of_ne (by omega), hproducts j (by omega)]
    refine ⟨fun hi => ?_, fun hi => ?_⟩
    · rcases eq_or_ne i (n + 1) with rfl | hne
      · rw [convertDown, hrest.2 n.lt_succ_self]
        exact storeAffine_apply hzinv
      · exact hrest.1 (by omega)
    · rw [convertDown, hrest.2 (by omega)]
      exact storeAffine_of_ne (by omega)

/-- **Batch conversion.**  It succeeds exactly if no point is at infinity, and every output is then
    what the conversion of that point alone gives. -/
theorem jacobian_to_affine_batch (inp : Nat → EcJacobian (ZMod p)) (out : AffineCells p)
    (num : Nat) :
    ((ecGfpMontJacobianToAffineBatch inp out num).1 = true ↔ ∀ i < num, (inp i).Z ≠ 0) ∧
      ((ecGfpMontJacobianToAffineBatch inp out num).1 = true → ∀ i < num,
        some ((ecGfpMontJacobianToAffineBatch inp out num).2 i) = ecJacobianToAffine (inp i)) := by
  rcases num with _ | n
  · simp [ecGfpMontJacobianToAffineBatch]
  have hproduct := @prefixProducts_apply p inp n out n (le_refl n)
  have hzero : (prefixProducts inp n out n).X ≠ 0 ↔ ∀ i < n + 1, (inp i).Z ≠ 0 := by
    rw [hproduct, prod_ne_zero_iff]
    simp
  by_cases h : (prefixProducts inp n out n).X = 0
  · rw [ecGfpMontJacobianToAffineBatch, if_pos h]
    exact ⟨⟨nofun, fun hall => absurd h (hzero.mpr hall)⟩, nofun⟩
  · rw [ecGfpMontJacobianToAffineBatch, if_neg h]
    refine ⟨⟨fun _ => hzero.mp h, fun _ => rfl⟩, fun _ i hi => ?_⟩
    have hinv : (prefixProducts inp n out n).X⁻¹ * ∏ j ∈ range (n + 1), (inp j).Z = 1 := by
      rw [← hproduct, inv_mul_cancel₀ h]
    exact (convertDown_apply hinv (fun j hj => prefixProducts_apply hj.le) i).1 (by omega)

theorem jacobian_to_affine_batch_small : Nat.Prime 5 ∧ (ecGfpMontJacobianToAffineBatch
    (fun _ => (⟨0, 1, 2⟩ : EcJacobian (ZMod 5))) (fun _ => ⟨0, 0⟩) 2).1 = true := by
  have htwo : (2 : ZMod 5) ≠ 0 := by decide
  have : Fact (Nat.Prime 5) := ⟨Nat.prime_five⟩
  exact ⟨Nat.prime_five, (jacobian_to_affine_batch _ _ 2).1.mpr fun _ _ => htwo⟩

end AwsLc
