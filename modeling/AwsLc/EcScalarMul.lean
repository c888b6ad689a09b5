import AwsLc.EcJacobian
import AwsLc.Runs
import AwsLc.ScalarRecoding
import Mathlib.Data.List.Iterate

/-!
# Scalar multiplication (`ec_nistp.c`)

`ec_nistp_scalar_mul` adds up odd multiples of a point from a table, which the digits of the scalar
select, with five doublings after each digit.  An index outside the table has no result.
-/

namespace AwsLc

open Runs WeierstrassCurve

variable {F : Type} [Field F] [DecidableEq F]

/-! ### The multiplication -/

/-- The odd multiples of `p` up to 31. -/
def generateTable (p : EcJacobian F) : List (EcJacobian F) :=
  let twoP := ecNistpPointDouble (some p) p
  List.iterate (fun prev => ecNistpPointAdd (some prev) prev false twoP) p 16

def negPoint (p : EcJacobian F) : EcJacobian F := { p with Y := -p.Y }

/-- The entry of the table for a digit, negated if the digit is negative. -/
def selectPoint (table : List (EcJacobian F)) (d : Int) : Option (EcJacobian F) :=
  table[d.natAbs / 2]?.map fun point => if d < 0 then negPoint point else point

/-- The steps 3 and 4 of the source, for the digit `i`. -/
def mulRound (table : List (EcJacobian F)) (rwnaf : List Int) (i : Nat) (res : EcJacobian F) :
    Option (EcJacobian F) := do
  let d ← rwnaf[i]?
  let tmp ← selectPoint table d
  some (ecNistpPointAdd none ((ecNistpPointDouble none)^[5] res) false tmp)

def ecNistpScalarMul (bits : Nat) (p : EcJacobian F) (scalar : Nat) : Option (EcJacobian F) := do
  let table := generateTable p
  let rwnaf ← scalarRwnaf scalar bits 5
  let numWindows := (bits + 5 - 1) / 5
  let idx ← rwnaf[numWindows - 1]?
  let res ← table[(idx / 2).toNat]?
  let res ← countdown (mulRound table rwnaf) (numWindows - 1) res
  let mp ← table[0]?
  let tmp := ecNistpPointAdd (some res) res false (negPoint mp)
  some (if scalar % 2 = 0 then tmp else res)

/-! ### The points of the digits -/

variable {group : EcGroup F} {p q res : EcJacobian F} {P Q : group.Point}
  {table : List (EcJacobian F)} {bits scalar i : Nat} {rwnaf : List Int}

theorem negPoint_represents (h : group.Represents p P) : group.Represents (negPoint p) (-P) := by
  rcases h with ⟨hz, rfl⟩ | ⟨hz, hns, rfl⟩
  · rw [neg_zero]
    exact represents_zero hz
  · rw [Affine.Point.neg_some]
    refine represents_some hz ?_ ?_
    · exact (div_mul_cancel₀ _ (pow_ne_zero 2 hz)).symm
    · rw [negY_eq, neg_mul, negPoint, div_mul_cancel₀ _ (pow_ne_zero 3 hz)]

/-- A table of the odd multiples of a point. -/
def HoldsOdd (group : EcGroup F) (table : List (EcJacobian F)) (P : group.Point) : Prop :=
  ∀ i < 16, ∃ point, table[i]? = some point ∧ group.Represents point ((2 * i + 1) • P)

theorem HoldsOdd.selectPoint (h : HoldsOdd group table P) {d : Int} (hodd : d % 2 = 1)
    (hlt : |d| < 2 ^ 5) :
    ∃ point, selectPoint table d = some point ∧ group.Represents point (d • P) := by
  rw [abs_lt] at hlt
  obtain ⟨point, hpoint, hrep⟩ := h (d.natAbs / 2) (by omega)
  have hidx : 2 * (d.natAbs / 2) + 1 = d.natAbs := by omega
  rw [hidx, ← natCast_zsmul] at hrep
  refine ⟨_, by rw [AwsLc.selectPoint, hpoint]; rfl, ?_⟩
  split
  · have hneg : d = -d.natAbs := by omega
    rw [hneg, neg_zsmul]
    exact negPoint_represents hrep
  · have hpos : (d.natAbs : Int) = d := by omega
    rwa [hpos] at hrep

/-- The highest digit is positive, so that its entry is not negated. -/
theorem start_represents (htable : HoldsOdd group table P) (hrwnaf : IsRwnaf scalar bits 5 rwnaf) :
    ∃ idx res, rwnaf[rwnaf.length - 1]? = some idx ∧ table[(idx / 2).toNat]? = some res ∧
      group.Represents res (signedValue (2 ^ 5) (rwnaf.drop (rwnaf.length - 1)) • P) := by
  obtain ⟨idx, hidx, hpos⟩ := hrwnaf.last
  rw [List.getLast?_eq_getElem?] at hidx
  obtain ⟨hodd, hlt⟩ := hrwnaf.digit idx (List.mem_of_getElem? hidx)
  rw [abs_lt] at hlt
  obtain ⟨res, hres, hrep⟩ := htable (idx / 2).toNat (by omega)
  refine ⟨idx, res, hidx, hres, ?_⟩
  have hlength : rwnaf.length ≤ rwnaf.length - 1 + 1 := by omega
  have hvalue : idx = ((2 * (idx / 2).toNat + 1 : Nat) : Int) := by omega
  rw [signedValue_drop hidx, List.drop_eq_nil_of_le hlength, hvalue]
  rwa [signedValue, List.foldr_nil, mul_zero, add_zero, natCast_zsmul]

section

variable (htwo : (2 : F) ≠ 0) (ha : group.a = -3)
include htwo ha

theorem nistpDouble_represents (old : Option (EcJacobian F)) (h : group.Represents p P) :
    group.Represents (ecNistpPointDouble old p) (2 • P) := by
  rw [ecNistpPointDouble_eq, two_nsmul, ← ha]
  exact dblOf_represents htwo h

theorem nistpAdd_represents (old : Option (EcJacobian F)) (hp : group.Represents p P)
    (hq : group.Represents q Q) : group.Represents (ecNistpPointAdd old p false q) (P + Q) := by
  rw [ecNistpPointAdd_eq old p q false nofun, ← ha]
  exact addOf_represents htwo hp hq

theorem iterate_double_represents (n : Nat) (h : group.Represents p P) :
    group.Represents ((ecNistpPointDouble none)^[n] p) ((2 ^ n : Int) • P) := by
  induction n with
  | zero => rwa [pow_zero, one_zsmul]
  | succ n ih =>
    rw [Function.iterate_succ_apply', pow_succ', mul_zsmul, two_zsmul, ← two_nsmul]
    exact nistpDouble_represents htwo ha none ih

theorem generateTable_holdsOdd (h : group.Represents p P) : HoldsOdd group (generateTable p) P := by
  intro i hi
  refine ⟨_, List.getElem?_iterate _ _ _ _ hi, ?_⟩
  clear hi
  induction i with
  | zero => rwa [Nat.mul_zero, Nat.zero_add, one_nsmul]
  | succ i ih =>
    rw [Function.iterate_succ_apply', Nat.mul_succ, Nat.add_right_comm, add_nsmul]
    exact nistpAdd_represents htwo ha _ ih (nistpDouble_represents htwo ha _ h)

/-- **A round** takes the result from the digits above `i` to those from `i` on. -/
theorem mulRound_represents (htable : HoldsOdd group table P)
    (hrwnaf : IsRwnaf scalar bits 5 rwnaf) (hi : i < rwnaf.length)
    (hres : group.Represents res (signedValue (2 ^ 5) (rwnaf.drop (i + 1)) • P)) :
    ∃ next, mulRound table rwnaf i res = some next ∧
      group.Represents next (signedValue (2 ^ 5) (rwnaf.drop i) • P) := by
  have hdigit := List.getElem?_eq_getElem hi
  obtain ⟨hodd, hlt⟩ := hrwnaf.digit _ (List.mem_of_getElem? hdigit)
  obtain ⟨tmp, htmp, hrep⟩ := htable.selectPoint hodd hlt
  refine ⟨ecNistpPointAdd none ((ecNistpPointDouble none)^[5] res) false tmp, ?_, ?_⟩
  · simp only [mulRound, hdigit, Option.bind_eq_bind, Option.bind_some, htmp]
  · rw [signedValue_drop hdigit, add_comm, add_zsmul, mul_zsmul]
    exact nistpAdd_represents htwo ha none (iterate_double_represents htwo ha 5 hres) hrep

/-- **Scalar multiplication** gives the product in the group of the curve, for every point and every
    scalar, also where a sum on the way is at infinity or adds a point to itself. -/
theorem nistp_scalar_mul (hbits : 0 < bits) (hscalar : scalar < 2 ^ bits)
    (hp : group.Represents p P) :
    ∃ r, ecNistpScalarMul bits p scalar = some r ∧ group.Represents r (scalar • P) := by
  obtain ⟨digits, hdigits, hrwnaf⟩ :=
    @scalarRwnaf_isRwnaf scalar bits 5 (by decide) hbits hscalar
  have htable := generateTable_holdsOdd htwo ha hp
  obtain ⟨idx, res, hidx, hres, hstart⟩ := start_represents htable hrwnaf
  obtain ⟨final, hfinal, hvalue⟩ := countdown_induct
    (fun i res => group.Represents res (signedValue (2 ^ 5) (digits.drop i) • P))
    (fun i hi res => mulRound_represents htwo ha htable hrwnaf (by omega)) hstart
  obtain ⟨mp, hmp, hrepmp⟩ := htable 0 (by decide)
  rw [List.drop_zero, hrwnaf.value] at hvalue
  rw [Nat.mul_zero, Nat.zero_add, one_nsmul] at hrepmp
  have hsub := nistpAdd_represents htwo ha (some final) hvalue (negPoint_represents hrepmp)
  have hmul : ecNistpScalarMul bits p scalar = some (if scalar % 2 = 0 then
      ecNistpPointAdd (some final) final false (negPoint mp) else final) := by
    simp only [ecNistpScalarMul, hdigits, Option.bind_eq_bind, Option.bind_some, ← hrwnaf.length,
      hidx, hres, hfinal, hmp]
  refine ⟨_, hmul, ?_⟩
  -- the digits stand for one more than an even scalar
  rw [← natCast_zsmul]
  split
  · have hscalar : (scalar : Int) = 1 + 2 * (scalar / 2 : Nat) + -1 := by omega
    rwa [hscalar, add_zsmul, neg_one_zsmul]
  · have hscalar : (scalar : Int) = 1 + 2 * (scalar / 2 : Nat) := by omega
    rwa [hscalar]

end

theorem nistp_scalar_mul_small :
    ∃ r, ecNistpScalarMul 8 (⟨0, 1, 1⟩ : EcJacobian (ZMod 5)) 6 = some r ∧
      smallGroup.Represents r (6 • .some _ _ smallGroup_nonsingular) :=
  nistp_scalar_mul (by decide) rfl (by decide) (by decide)
    (.inr ⟨by decide, smallGroup_nonsingular, rfl⟩)

end AwsLc
