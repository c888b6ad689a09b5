import AwsLc.EcOct
import Mathlib.FieldTheory.Finite.Basic
import Mathlib.GroupTheory.OrderOfElement

/-!
# ECDSA

`ecdsa_sign_impl` and `ecdsa_do_verify_no_self_test`, over a curve of the field of `p` elements with
a generator of the prime order `n`.  Scalars are kept as the numbers that their words are, and many
of them in Montgomery form, which is left by a product with a number that is not in that form.  The
multiplications of points are parameters.
-/

namespace AwsLc

open BigEndian ZMod

/-! ### Numbers of several words -/

/-- `bn_reduce_once` on a number of `width` words and its carry. -/
def reduceOnce (width a carry m : Nat) : Nat :=
  let r := (a + 2 ^ (64 * width) - m) % 2 ^ (64 * width)
  let borrow := if a < m then 1 else 0
  -- the carry less the borrow is the mask that selects the number itself
  if carry = borrow then r else a

def digestToScalar (width n : Nat) (digest : Bytes) : Nat :=
  let numBits := n.size
  -- first truncate whole bytes
  let numBytes := (numBits + 7) / 8
  let digest := if numBytes < digest.length then digest.take numBytes else digest
  let out := beNat digest
  -- then truncate the remaining bits with a shift
  let out := if numBits < 8 * digest.length then out >>> (8 - numBits % 8) else out
  reduceOnce width out 0 n

def ecBignumToScalar (width n : Nat) (inp : Int) : Option (ZMod n) :=
  if inp < 0 then none
  else if 2 ^ (64 * width) ≤ inp.toNat then none
  else if inp.toNat < n then some inp.toNat
  else none

section

variable {m : Nat} (R : ZMod m)

/-- `bn_mod_mul_montgomery_small`. -/
def mulMontgomery (a b : ZMod m) : ZMod m := a * b * R⁻¹

/-- `bn_to_montgomery_small`, the product with the square of the factor. -/
def toMontgomery (a : ZMod m) : ZMod m := mulMontgomery R a (R * R)

/-- `bn_from_montgomery_small`. -/
def fromMontgomery (a : ZMod m) : ZMod m := a * R⁻¹

/-- The power that `bn_mod_exp_mont_small` is. -/
def expMontgomery (a : ZMod m) : Nat → ZMod m
  | 0 => fromMontgomery R (R * R)
  | e + 1 => mulMontgomery R (expMontgomery a e) a

/-- `bn_mod_inverse0_prime_mont_small`. -/
def inverse0Montgomery (a : ZMod m) : ZMod m := expMontgomery R a (m - 2)

def pointFromMontgomery (point : EcJacobian (ZMod m)) : EcJacobian (ZMod m) :=
  ⟨fromMontgomery R point.X, fromMontgomery R point.Y, fromMontgomery R point.Z⟩

end

/-! ### The source -/

/-- The functions that `cmp_x_coordinate` of an `EC_METHOD` may be. -/
inductive CmpXCoordinate where
  /-- `ec_GFp_simple_cmp_x_coordinate`. -/
  | simple
  /-- `ec_GFp_mont_cmp_x_coordinate`. -/
  | mont
  /-- `ec_GFp_nistp256_cmp_x_coordinate`, `ec_GFp_nistp384_cmp_x_coordinate` and
    `ecp_nistz256_cmp_x_coordinate`. -/
  | nistp
deriving DecidableEq

/-- What is read of an `EC_GROUP`; with `montgomery` coordinates are in Montgomery form. -/
structure EcdsaParams (p n : Nat) [Fact p.Prime] where
  curve : EcGroup (ZMod p)
  fieldWidth : Nat
  orderWidth : Nat
  montgomery : Bool
  cmpXCoordinate : CmpXCoordinate
  mulBase : ZMod n → EcJacobian (ZMod p)
  mulPublic : ZMod n → EcJacobian (ZMod p) → ZMod n → EcJacobian (ZMod p)

structure EcdsaSig where
  r : Int
  s : Int

/-- What `ecdsa_sign_impl` returns. -/
inductive SignOutcome where
  | failed
  | retry
  | signature (sig : EcdsaSig)

section

variable {p n : Nat} [Fact p.Prime] (group : EcdsaParams p n)

def EcdsaParams.fieldR : ZMod p :=
  if group.montgomery then (2 ^ (64 * group.fieldWidth) : Nat) else 1

def EcdsaParams.orderR : ZMod n := (2 ^ (64 * group.orderWidth) : Nat)

variable (point : EcJacobian (ZMod p))

def EcdsaParams.coordinates : EcJacobian (ZMod p) :=
  pointFromMontgomery group.fieldR point

def ecGetXCoordinateAsScalar : Option Nat := do
  let affine ← ecJacobianToAffine (group.coordinates point)
  let bytes := ecFelemToBytes affine.X
  if 8 * (group.orderWidth + 1) < bytes.length then none
  else
    let words := beNat bytes
    some (reduceOnce group.orderWidth (words % 2 ^ (64 * group.orderWidth))
      (words / 2 ^ (64 * group.orderWidth)) n)

def ecGfpSimpleCmpXCoordinate (r : ZMod n) : Bool :=
  if point.Z = 0 then false
  else
    match ecGetXCoordinateAsScalar group point with
    | none => false
    | some x => x == r.val

def ecGfpNistpCmpXCoordinate (r : ZMod n) : Bool :=
  if point.Z = 0 then false
  else
    let z2Mont := mulMontgomery group.fieldR point.Z point.Z
    -- r is not in Montgomery form, so the product is not
    let rZ2 := mulMontgomery group.fieldR (r.val : ZMod p) z2Mont
    let X := fromMontgomery group.fieldR point.X
    if rZ2 = X then true
    else
      let sum := (r.val + n) % 2 ^ (64 * group.fieldWidth)
      let carry := (r.val + n) / 2 ^ (64 * group.fieldWidth)
      if carry = 0 ∧ sum < p then
        decide (mulMontgomery group.fieldR (sum : ZMod p) z2Mont = X)
      else false

def ecGfpMontCmpXCoordinate (r : ZMod n) : Bool :=
  let fieldGreaterThanOrder := decide (n < p)
  if fieldGreaterThanOrder = false ∨ group.fieldWidth ≠ group.orderWidth then
    ecGfpSimpleCmpXCoordinate group point r
  else ecGfpNistpCmpXCoordinate group point r

def ecCmpXCoordinate (r : ZMod n) : Bool :=
  match group.cmpXCoordinate with
  | .simple => ecGfpSimpleCmpXCoordinate group point r
  | .mont => ecGfpMontCmpXCoordinate group point r
  | .nistp => ecGfpNistpCmpXCoordinate group point r

def ecGfpSimpleIsOnCurve (curve : EcGroup (ZMod p)) (point : EcJacobian (ZMod p)) : Bool :=
  let rh := point.X ^ 2
  let tmp := point.Z ^ 2
  let z4 := tmp ^ 2
  let z6 := z4 * tmp
  let rh := if curve.aIsMinus3 then rh - (z4 + z4 + z4) else rh + z4 * curve.a
  let rh := rh * point.X
  let rh := rh + curve.b * z6
  let tmp := point.Y ^ 2
  decide (point.Z = 0 ∨ tmp - rh = 0)

def ecPointMulScalarBase (scalar : ZMod n) : Option (EcJacobian (ZMod p)) :=
  let r := group.mulBase scalar
  if ecGfpSimpleIsOnCurve group.curve (group.coordinates r) then some r else none

def ecScalarToMontgomeryInvVartime (a : ZMod n) : Option (ZMod n) :=
  if a = 0 then none
  else
    let r := inverse0Montgomery group.orderR a
    some (fromMontgomery group.orderR r)

def ecdsaDoVerifyNoSelfTest (digest : Bytes) (sig : EcdsaSig) (pubKey : EcJacobian (ZMod p)) :
    Bool :=
  if sig.r = 0 then false
  else
    match ecBignumToScalar group.orderWidth n sig.r with
    | none => false
    | some r =>
      if sig.s = 0 then false
      else
        match ecBignumToScalar group.orderWidth n sig.s with
        | none => false
        | some s =>
          match ecScalarToMontgomeryInvVartime group s with
          | none => false
          | some sInvMont =>
            -- only one factor is in Montgomery form, so the products are not
            let m : ZMod n := digestToScalar group.orderWidth n digest
            let u1 := mulMontgomery group.orderR m sInvMont
            let u2 := mulMontgomery group.orderR r sInvMont
            let point := group.mulPublic u1 pubKey u2
            ecCmpXCoordinate group point r

/-- `ecdsa_sign_impl` once `r` is known. -/
def ecdsaSignWith (privKey k r : ZMod n) (digest : Bytes) : SignOutcome :=
  if r = 0 then .retry
  else
    let s := toMontgomery group.orderR r
    let s := mulMontgomery group.orderR privKey s
    let tmp : ZMod n := digestToScalar group.orderWidth n digest
    let s := s + tmp
    -- the inverse of k, which is not in Montgomery form, has the square of the factor
    let tmp := inverse0Montgomery group.orderR k
    let tmp := fromMontgomery group.orderR tmp
    let s := mulMontgomery group.orderR s tmp
    if s = 0 then .retry else .signature ⟨r.val, s.val⟩

def ecdsaSignImpl (privKey k : ZMod n) (digest : Bytes) : SignOutcome :=
  if n.size < 160 then .failed
  else
    match (ecPointMulScalarBase group k).bind (ecGetXCoordinateAsScalar group) with
    | none => .failed
    | some r => ecdsaSignWith group privKey k r digest

end

/-- **A group for ECDSA**: its generator has the order `n`, which is odd and more than half of `p`,
    and the multiplications of points are those of the group. -/
structure EcdsaGroup (p n : Nat) [Fact p.Prime] [Fact n.Prime] extends EcdsaParams p n where
  generator : curve.Point
  order_generator : addOrderOf generator = n
  field_lt_twice : p < 2 * n
  three_lt_field : 3 < p
  order_ne_two : n ≠ 2
  field_lt : p < 2 ^ (64 * fieldWidth)
  order_lt : n < 2 ^ (64 * orderWidth)
  order_lt_of_nistp : cmpXCoordinate = .nistp → n < p
  mulBase_represents : ∀ k, curve.Represents (toEcdsaParams.coordinates (mulBase k))
    (k.val • generator)
  mulPublic_represents : ∀ g point k P, curve.Represents (toEcdsaParams.coordinates point) P →
    curve.Represents (toEcdsaParams.coordinates (mulPublic g point k))
      (g.val • generator + k.val • P)

/-! ### Reduction and the digest -/

theorem reduceOnce_eq {width a carry m : Nat} (hm : m < 2 ^ (64 * width))
    (ha : a < 2 ^ (64 * width)) (hlt : carry * 2 ^ (64 * width) + a < 2 * m) :
    reduceOnce width a carry m = (carry * 2 ^ (64 * width) + a) % m := by
  unfold reduceOnce
  generalize 2 ^ (64 * width) = bound at *
  have hcarry : carry = 0 ∨ carry = 1 := by
    rcases carry with _ | _ | carry
    · exact Or.inl rfl
    · exact Or.inr rfl
    · have hle : 2 * bound ≤ (carry + 1 + 1) * bound := Nat.mul_le_mul_right _ (by omega)
      omega
  dsimp only
  by_cases hless : a < m
  · rw [if_pos hless]
    rcases hcarry with rfl | rfl
    · rw [if_neg (by decide), Nat.zero_mul, Nat.zero_add, Nat.mod_eq_of_lt hless]
    · rw [if_pos rfl, Nat.mod_eq_of_lt (show a + bound - m < bound by omega),
        Nat.mod_eq_sub_mod (show m ≤ 1 * bound + a by omega), Nat.mod_eq_of_lt (by omega)]
      omega
  · rw [if_neg hless]
    rcases hcarry with rfl | rfl
    · rw [if_pos rfl, show a + bound - m = a - m + bound by omega, Nat.add_mod_right,
        Nat.mod_eq_of_lt (by omega), Nat.zero_mul, Nat.zero_add,
        Nat.mod_eq_sub_mod (show m ≤ a by omega), Nat.mod_eq_of_lt (by omega)]
    · omega

def leftmostBits (n : Nat) (digest : Bytes) : Nat :=
  beNat digest / 2 ^ (8 * digest.length - min (8 * digest.length) n.size)

theorem beNat_take (bytes : Bytes) (count : Nat) :
    beNat (bytes.take count) = beNat bytes / 2 ^ (8 * (bytes.length - count)) := by
  have hsplit : beNat bytes =
      beNat (bytes.take count) * 2 ^ (8 * (bytes.length - count)) + beNat (bytes.drop count) := by
    rw [Nat.pow_mul, ← List.length_drop]
    exact (congrArg beNat (List.take_append_drop count bytes).symm).trans (beNat_append _ _)
  have hlow : beNat (bytes.drop count) < 2 ^ (8 * (bytes.length - count)) := by
    rw [Nat.pow_mul, ← List.length_drop]
    exact beNat_lt _
  rw [hsplit, Nat.mul_comm, Nat.mul_add_div (Nat.two_pow_pos _), Nat.div_eq_of_lt hlow,
    Nat.add_zero]

theorem leftmostBits_lt (n : Nat) (digest : Bytes) : leftmostBits n digest < 2 ^ n.size := by
  have hlt : beNat digest < 2 ^ (8 * digest.length) := by
    rw [Nat.pow_mul]
    exact beNat_lt digest
  unfold leftmostBits
  rw [Nat.div_lt_iff_lt_mul (Nat.two_pow_pos _), ← Nat.pow_add]
  refine Nat.lt_of_lt_of_le hlt (Nat.pow_le_pow_right (by decide) ?_)
  omega

theorem two_pow_size_le {n : Nat} (hpos : 0 < n) : 2 ^ n.size ≤ 2 * n := by
  have hsize : n.size ≠ 0 := fun h => by
    rw [Nat.size_eq_zero] at h
    omega
  have hle : 2 ^ (n.size - 1) ≤ n := Nat.lt_size.mp (by omega)
  calc 2 ^ n.size = 2 * 2 ^ (n.size - 1) := by
        rw [← Nat.pow_succ']
        congr 1
        omega
    _ ≤ 2 * n := Nat.mul_le_mul_left 2 hle

/-- **The digest as a scalar.** -/
theorem digestToScalar_eq {width n : Nat} (hpos : 0 < n) (hn : n < 2 ^ (64 * width))
    (digest : Bytes) : digestToScalar width n digest = leftmostBits n digest % n := by
  -- the truncation to bytes and the shift are one division
  have htruncate : ∀ bytes : Bytes,
      bytes = (if (n.size + 7) / 8 < digest.length then digest.take ((n.size + 7) / 8)
        else digest) →
      (if n.size < 8 * bytes.length then beNat bytes >>> (8 - n.size % 8) else beNat bytes) =
        leftmostBits n digest := by
    intro bytes hbytes
    have hvalue : beNat bytes = beNat digest / 2 ^ (8 * (digest.length - bytes.length)) := by
      rw [hbytes]
      split
      next hlong =>
        rw [beNat_take, List.length_take, Nat.min_eq_left hlong.le]
      next => rw [Nat.sub_self, Nat.mul_zero, Nat.pow_zero, Nat.div_one]
    have hlength : bytes.length = min ((n.size + 7) / 8) digest.length := by
      rw [hbytes]
      split
      next hlong => rw [List.length_take]
      next hlong => rw [Nat.min_eq_right (Nat.not_lt.mp hlong)]
    unfold leftmostBits
    split
    next hbits =>
      rw [Nat.shiftRight_eq_div_pow, hvalue, Nat.div_div_eq_div_mul, ← Nat.pow_add]
      congr 2
      omega
    next hbits =>
      rw [hvalue]
      congr 2
      omega
  unfold digestToScalar
  dsimp only
  rw [htruncate _ rfl]
  have hlt := Nat.lt_of_lt_of_le (leftmostBits_lt n digest) (two_pow_size_le hpos)
  have hwords : leftmostBits n digest < 2 ^ (64 * width) := by
    refine Nat.lt_of_lt_of_le (leftmostBits_lt n digest) (Nat.pow_le_pow_right (by decide) ?_)
    exact Nat.size_le.mpr hn
  rw [reduceOnce_eq hn hwords (by omega), Nat.zero_mul, Nat.zero_add]

theorem ecBignumToScalar_eq_some {width n : Nat} [NeZero n] (hn : n < 2 ^ (64 * width)) {inp : Int}
    {r : ZMod n} : ecBignumToScalar width n inp = some r ↔ 0 ≤ inp ∧ inp = r.val := by
  unfold ecBignumToScalar
  constructor
  · intro h
    split at h
    · cases h
    split at h
    · cases h
    split at h
    next hlt =>
      obtain rfl := Option.some_inj.mp h
      rw [val_natCast_of_lt hlt]
      omega
    · cases h
  · rintro ⟨hpos, heq⟩
    have hlt := r.val_lt
    have hval : inp.toNat = r.val := by omega
    rw [if_neg (by omega), if_neg (by rw [hval]; omega), if_pos (by omega), hval,
      natCast_zmod_val]

section

variable {m : Nat} [Fact m.Prime] {R : ZMod m} (hR : R ≠ 0)
include hR

theorem expMontgomery_eq (a : ZMod m) (e : Nat) :
    expMontgomery R a e = fromMontgomery R a ^ e * R := by
  induction e with
  | zero =>
    unfold expMontgomery fromMontgomery
    rw [pow_zero, one_mul, mul_assoc, mul_inv_cancel₀ hR, mul_one]
  | succ e ih =>
    unfold expMontgomery mulMontgomery
    rw [ih, pow_succ]
    unfold fromMontgomery
    ring

theorem fromMontgomery_inverse0 {a : ZMod m} (ha : a ≠ 0) :
    fromMontgomery R (inverse0Montgomery R a) = a⁻¹ * R := by
  have hstored : fromMontgomery R a ≠ 0 := mul_ne_zero ha (inv_ne_zero hR)
  have htwo : m - 2 + 1 = m - 1 := by
    have := (Fact.out : m.Prime).two_le
    omega
  have hpow : fromMontgomery R a ^ (m - 2) = (fromMontgomery R a)⁻¹ := by
    refine eq_inv_of_mul_eq_one_left ?_
    rw [← pow_succ, htwo, pow_card_sub_one_eq_one hstored]
  unfold inverse0Montgomery
  rw [expMontgomery_eq hR, hpow]
  unfold fromMontgomery
  field_simp

theorem mulMontgomery_mul (a b : ZMod m) : mulMontgomery R a (b * R) = a * b := by
  unfold mulMontgomery
  field_simp

theorem toMontgomery_eq (a : ZMod m) : toMontgomery R a = a * R := by
  unfold toMontgomery mulMontgomery
  field_simp

end

section

variable {p n : Nat} [Fact p.Prime] [Fact n.Prime] (group : EcdsaGroup p n)

theorem EcdsaGroup.fieldR_ne_zero : group.fieldR ≠ 0 := by
  unfold EcdsaParams.fieldR
  split
  · rw [Nat.cast_pow]
    exact pow_ne_zero _ (two_ne_zero_zmod group.three_lt_field)
  · exact one_ne_zero

theorem EcdsaGroup.orderR_ne_zero : group.orderR ≠ 0 := by
  rw [EcdsaParams.orderR, Nat.cast_pow]
  refine pow_ne_zero _ fun htwo => group.order_ne_two ?_
  have hdvd : n ∣ 2 := (natCast_eq_zero_iff 2 n).mp htwo
  exact (Nat.prime_dvd_prime_iff_eq Fact.out Nat.prime_two).mp hdvd

theorem EcdsaGroup.coordinates_Z_eq_zero (point : EcJacobian (ZMod p)) :
    (group.coordinates point).Z = 0 ↔ point.Z = 0 := by
  change point.Z * group.fieldR⁻¹ = 0 ↔ point.Z = 0
  rw [mul_eq_zero, or_iff_left (inv_ne_zero group.fieldR_ne_zero)]

def EcdsaParams.affineX (group : EcdsaParams p n) (point : EcJacobian (ZMod p)) : ZMod p :=
  (group.coordinates point).X / (group.coordinates point).Z ^ 2

variable {point : EcJacobian (ZMod p)}

theorem ecGetXCoordinateAsScalar_eq (hz : point.Z ≠ 0) :
    ecGetXCoordinateAsScalar group.toEcdsaParams point = some ((group.affineX point).val % n) := by
  have hx : (group.coordinates point).X * (group.coordinates point).Z⁻¹ ^ 2 =
      group.affineX point := by
    unfold EcdsaParams.affineX
    rw [inv_pow, div_eq_mul_inv]
  have haffine : ∃ y, ecJacobianToAffine (group.coordinates point) =
      some ⟨group.affineX point, y⟩ := by
    unfold ecJacobianToAffine
    rw [if_neg (mt (group.coordinates_Z_eq_zero point).mp hz)]
    dsimp only
    rw [hx]
    exact ⟨_, rfl⟩
  obtain ⟨y, haffine⟩ := haffine
  have hlt : p < 2 * n := group.field_lt_twice
  have hn : n < 2 ^ (64 * group.orderWidth) := group.order_lt
  have hsize : p.size ≤ 64 * group.orderWidth + 1 := by
    rw [Nat.size_le, Nat.pow_succ]
    omega
  have hxlt : (group.affineX point).val < p := val_lt _
  have hwords : ¬8 * (group.orderWidth + 1) < fieldLen p := by
    unfold fieldLen
    omega
  have hsplit := Nat.div_add_mod' (group.affineX point).val (2 ^ (64 * group.orderWidth))
  unfold ecGetXCoordinateAsScalar
  refine bind_of_eq_some haffine ?_
  dsimp only
  rw [length_ecFelemToBytes, if_neg hwords, beNat_ecFelemToBytes,
    reduceOnce_eq hn (Nat.mod_lt _ (Nat.two_pow_pos _)) (by omega), hsplit]

theorem ecGfpSimpleCmpXCoordinate_iff (point : EcJacobian (ZMod p)) (r : ZMod n) :
    ecGfpSimpleCmpXCoordinate group.toEcdsaParams point r = true ↔
      point.Z ≠ 0 ∧ (group.affineX point).val % n = r.val := by
  unfold ecGfpSimpleCmpXCoordinate
  by_cases hz : point.Z = 0
  · rw [if_pos hz]
    exact ⟨nofun, fun h => absurd hz h.1⟩
  · rw [if_neg hz, ecGetXCoordinateAsScalar_eq group hz]
    dsimp only
    rw [beq_iff_eq]
    exact ⟨fun h => ⟨hz, h⟩, fun h => h.2⟩

/-- The product of a number and the square of `Z` is compared with `X`. -/
theorem product_eq_iff (hz : point.Z ≠ 0) {v : Nat} (hv : v < p) :
    mulMontgomery group.fieldR (v : ZMod p) (mulMontgomery group.fieldR point.Z point.Z) =
        fromMontgomery group.fieldR point.X ↔ (group.affineX point).val = v := by
  have hR := group.fieldR_ne_zero
  have hx : (group.affineX point).val = v ↔ group.affineX point = v := by
    constructor
    · intro h
      rw [← h, natCast_zmod_val]
    · intro h
      rw [h, val_natCast_of_lt hv]
  have haffine : group.affineX point =
      fromMontgomery group.fieldR point.X / fromMontgomery group.fieldR point.Z ^ 2 := rfl
  have hstored : fromMontgomery group.fieldR point.Z ^ 2 ≠ 0 :=
    pow_ne_zero 2 (mul_ne_zero hz (inv_ne_zero hR))
  have hsquare : mulMontgomery group.fieldR (v : ZMod p)
      (mulMontgomery group.fieldR point.Z point.Z) =
        v * fromMontgomery group.fieldR point.Z ^ 2 := by
    unfold mulMontgomery fromMontgomery
    ring
  rw [hx, haffine, hsquare, div_eq_iff hstored]
  exact eq_comm

/-- **The comparison without an inversion.** -/
theorem ecGfpNistpCmpXCoordinate_iff (hless : n < p) (point : EcJacobian (ZMod p)) (r : ZMod n) :
    ecGfpNistpCmpXCoordinate group.toEcdsaParams point r = true ↔
      point.Z ≠ 0 ∧ (group.affineX point).val % n = r.val := by
  have hr := r.val_lt
  have hfield : p < 2 ^ (64 * group.fieldWidth) := group.field_lt
  have hlt : p < 2 * n := group.field_lt_twice
  have hxlt : (group.affineX point).val < p := val_lt _
  -- a coordinate is below twice the order
  have hmod : (group.affineX point).val % n = r.val ↔
      (group.affineX point).val = r.val ∨ (group.affineX point).val = r.val + n := by
    by_cases hsmall : (group.affineX point).val < n
    · rw [Nat.mod_eq_of_lt hsmall]
      omega
    · rw [Nat.mod_eq_sub_mod (Nat.not_lt.mp hsmall), Nat.mod_eq_of_lt (by omega)]
      omega
  unfold ecGfpNistpCmpXCoordinate
  by_cases hz : point.Z = 0
  · rw [if_pos hz]
    exact ⟨nofun, fun h => absurd hz h.1⟩
  rw [if_neg hz, and_iff_right hz, hmod]
  dsimp only
  by_cases hfirst : (group.affineX point).val = r.val
  · rw [if_pos ((product_eq_iff group hz (by omega)).mpr hfirst)]
    exact ⟨fun _ => Or.inl hfirst, fun _ => rfl⟩
  rw [if_neg (mt (product_eq_iff group hz (by omega)).mp hfirst), or_iff_right hfirst]
  by_cases hsum : r.val + n < p
  · have hfits : r.val + n < 2 ^ (64 * group.fieldWidth) := by omega
    rw [Nat.mod_eq_of_lt hfits, if_pos ⟨Nat.div_eq_of_lt hfits, hsum⟩, decide_eq_true_eq]
    exact product_eq_iff group hz hsum
  · rw [if_neg]
    · exact ⟨nofun, fun h => by omega⟩
    · rintro ⟨hcarry, hsmall⟩
      have hfits := (Nat.div_eq_zero_iff_lt (Nat.two_pow_pos _)).mp hcarry
      rw [Nat.mod_eq_of_lt hfits] at hsmall
      exact hsum hsmall

theorem ecCmpXCoordinate_iff (point : EcJacobian (ZMod p)) (r : ZMod n) :
    ecCmpXCoordinate group.toEcdsaParams point r = true ↔
      point.Z ≠ 0 ∧ (group.affineX point).val % n = r.val := by
  unfold ecCmpXCoordinate
  cases hcmp : group.cmpXCoordinate with
  | simple => exact ecGfpSimpleCmpXCoordinate_iff group point r
  | mont =>
    dsimp only
    unfold ecGfpMontCmpXCoordinate
    dsimp only
    by_cases hslow : decide (n < p) = false ∨ group.fieldWidth ≠ group.orderWidth
    · rw [if_pos hslow]
      exact ecGfpSimpleCmpXCoordinate_iff group point r
    · rw [if_neg hslow]
      have hless := (Bool.not_eq_false _).mp (not_or.mp hslow).1
      exact ecGfpNistpCmpXCoordinate_iff group (decide_eq_true_iff.mp hless) point r
  | nistp => exact ecGfpNistpCmpXCoordinate_iff group (group.order_lt_of_nistp hcmp) point r

theorem affineX_of_represents {P : group.curve.Point}
    (h : group.curve.Represents (group.coordinates point) P) (v : Nat) :
    (point.Z ≠ 0 ∧ (group.affineX point).val % n = v) ↔
      ∃ x y hns, P = .some x y hns ∧ x.val % n = v := by
  rcases h with ⟨hz, rfl⟩ | ⟨hz, hns, rfl⟩
  · refine ⟨fun h => absurd ((group.coordinates_Z_eq_zero point).mp hz) h.1, ?_⟩
    rintro ⟨x, y, hns, h, -⟩
    exact absurd h.symm (WeierstrassCurve.Affine.Point.some_ne_zero hns)
  · constructor
    · rintro ⟨-, hx⟩
      exact ⟨_, _, hns, rfl, hx⟩
    · rintro ⟨x, y, hns', h, hx⟩
      refine ⟨mt (group.coordinates_Z_eq_zero point).mpr hz, ?_⟩
      obtain ⟨rfl, -⟩ := WeierstrassCurve.Affine.Point.some.inj h
      exact hx

theorem isOnCurve_of_represents {curve : EcGroup (ZMod p)} {P : curve.Point}
    (h : curve.Represents point P) : ecGfpSimpleIsOnCurve curve point = true := by
  unfold ecGfpSimpleIsOnCurve
  dsimp only
  rw [decide_eq_true_eq]
  rcases h with ⟨hz, -⟩ | ⟨hz, hns, -⟩
  · exact Or.inl hz
  right
  have heq := (WeierstrassCurve.Affine.equation_iff _ _).mp hns.1
  simp only [EcGroup.curve, zero_mul, add_zero] at heq
  have ha : (if curve.aIsMinus3 = true then
      point.X ^ 2 - ((point.Z ^ 2) ^ 2 + (point.Z ^ 2) ^ 2 + (point.Z ^ 2) ^ 2)
      else point.X ^ 2 + (point.Z ^ 2) ^ 2 * curve.a) = point.X ^ 2 + point.Z ^ 4 * curve.a := by
    split
    next hminus =>
      rw [curve.aIsMinus3_iff.mp hminus]
      ring
    next => ring
  rw [ha]
  field_simp at heq
  linear_combination heq

/-! ### Signing and verifying -/

theorem digest_cast (digest : Bytes) :
    (digestToScalar group.orderWidth n digest : ZMod n) = leftmostBits n digest := by
  rw [digestToScalar_eq (Fact.out : n.Prime).pos group.order_lt, natCast_mod]

theorem verify_scalars {s : ZMod n} (hs : s ≠ 0) :
    ∃ sInvMont, ecScalarToMontgomeryInvVartime group.toEcdsaParams s = some sInvMont ∧
      ∀ a, mulMontgomery group.orderR a sInvMont = a / s := by
  refine ⟨s⁻¹ * group.orderR, ?_, ?_⟩
  · unfold ecScalarToMontgomeryInvVartime
    rw [if_neg hs]
    dsimp only
    rw [fromMontgomery_inverse0 group.orderR_ne_zero hs]
  · intro a
    rw [mulMontgomery_mul group.orderR_ne_zero, div_eq_mul_inv]

/-- **What is verified**, for a public key that represents a point. -/
theorem ecdsaDoVerify_iff (digest : Bytes) (sig : EcdsaSig) {pubKey : EcJacobian (ZMod p)}
    {Q : group.curve.Point} (hQ : group.curve.Represents (group.coordinates pubKey) Q) :
    ecdsaDoVerifyNoSelfTest group.toEcdsaParams digest sig pubKey = true ↔
      ∃ r s : ZMod n, sig.r = r.val ∧ sig.s = s.val ∧ r ≠ 0 ∧ s ≠ 0 ∧
        ∃ x y hns, ((leftmostBits n digest : ZMod n) / s).val • group.generator +
          (r / s).val • Q = .some x y hns ∧ x.val % n = r.val := by
  have hn : n < 2 ^ (64 * group.orderWidth) := group.order_lt
  constructor
  · intro h
    unfold ecdsaDoVerifyNoSelfTest at h
    split at h
    · cases h
    next hr0 =>
    split at h
    · cases h
    next r hr =>
    split at h
    · cases h
    next hs0 =>
    split at h
    · cases h
    next s hs =>
    have hsigr := ((ecBignumToScalar_eq_some hn).mp hr).2
    have hsigs := ((ecBignumToScalar_eq_some hn).mp hs).2
    have hrne : r ≠ 0 := by
      rintro rfl
      exact hr0 (by rw [hsigr, val_zero, Nat.cast_zero])
    have hsne : s ≠ 0 := by
      rintro rfl
      exact hs0 (by rw [hsigs, val_zero, Nat.cast_zero])
    obtain ⟨sInvMont, hinv, hmul⟩ := verify_scalars group hsne
    rw [hinv] at h
    dsimp only at h
    rw [hmul, hmul, digest_cast, ecCmpXCoordinate_iff,
      affineX_of_represents group (group.mulPublic_represents _ _ _ _ hQ)] at h
    exact ⟨r, s, hsigr, hsigs, hrne, hsne, h⟩
  · rintro ⟨r, s, hsigr, hsigs, hrne, hsne, hpoint⟩
    obtain ⟨sInvMont, hinv, hmul⟩ := verify_scalars group hsne
    have hr : ecBignumToScalar group.orderWidth n sig.r = some r :=
      (ecBignumToScalar_eq_some hn).mpr ⟨by omega, hsigr⟩
    have hs : ecBignumToScalar group.orderWidth n sig.s = some s :=
      (ecBignumToScalar_eq_some hn).mpr ⟨by omega, hsigs⟩
    have hr0 : sig.r ≠ 0 := by
      rw [hsigr]
      exact_mod_cast (val_ne_zero r).mpr hrne
    have hs0 : sig.s ≠ 0 := by
      rw [hsigs]
      exact_mod_cast (val_ne_zero s).mpr hsne
    unfold ecdsaDoVerifyNoSelfTest
    rw [if_neg hr0, hr]
    dsimp only
    rw [if_neg hs0, hs]
    dsimp only
    rw [hinv]
    dsimp only
    rw [hmul, hmul, digest_cast, ecCmpXCoordinate_iff,
      affineX_of_represents group (group.mulPublic_represents _ _ _ _ hQ)]
    exact hpoint

/-- **What is signed.** -/
theorem ecdsaSignImpl_eq_signature {privKey k : ZMod n} (hk : k ≠ 0) {digest : Bytes}
    {sig : EcdsaSig} (h : ecdsaSignImpl group.toEcdsaParams privKey k digest = .signature sig) :
    ∃ r s : ZMod n, sig.r = r.val ∧ sig.s = s.val ∧ r ≠ 0 ∧ s ≠ 0 ∧
      s = (privKey * r + leftmostBits n digest) * k⁻¹ ∧
      ∃ x y hns, k.val • group.generator = .some x y hns ∧ x.val % n = r.val := by
  have hrepresents := group.mulBase_represents k
  have hbase : ecPointMulScalarBase group.toEcdsaParams k = some (group.mulBase k) := by
    unfold ecPointMulScalarBase
    dsimp only
    rw [if_pos (isOnCurve_of_represents hrepresents)]
  unfold ecdsaSignImpl at h
  split at h
  · cases h
  rw [hbase, Option.bind_some] at h
  by_cases hz : (group.mulBase k).Z = 0
  · have hnone : ecGetXCoordinateAsScalar group.toEcdsaParams (group.mulBase k) = none := by
      unfold ecGetXCoordinateAsScalar ecJacobianToAffine
      rw [if_pos ((group.coordinates_Z_eq_zero _).mpr hz)]
      rfl
    rw [hnone] at h
    cases h
  rw [ecGetXCoordinateAsScalar_eq group hz] at h
  dsimp only at h
  generalize hr : (((group.affineX (group.mulBase k)).val % n : Nat) : ZMod n) = r at h
  have hrval : (group.affineX (group.mulBase k)).val % n = r.val := by
    rw [← hr, val_natCast_of_lt (Nat.mod_lt _ (Fact.out : n.Prime).pos)]
  unfold ecdsaSignWith at h
  split at h
  · cases h
  next hrne =>
  dsimp only at h
  rw [toMontgomery_eq group.orderR_ne_zero, mulMontgomery_mul group.orderR_ne_zero, digest_cast,
    fromMontgomery_inverse0 group.orderR_ne_zero hk, mulMontgomery_mul group.orderR_ne_zero] at h
  split at h
  · cases h
  next hsne =>
  cases h
  exact ⟨r, _, rfl, rfl, hrne, hsne, rfl,
    (affineX_of_represents group hrepresents r.val).mp ⟨hz, hrval⟩⟩

theorem val_nsmul_generator (a b : ZMod n) (c : Nat) :
    a.val • group.generator + b.val • (c • group.generator) =
      (a + b * c).val • group.generator := by
  rw [← mul_nsmul', ← add_nsmul]
  refine (nsmul_eq_nsmul_iff_modEq).mpr ?_
  rw [group.order_generator, ← natCast_eq_natCast_iff]
  simp

end

/-- **ECDSA.**  What is signed is verified with the public key.  A signature is verified if and only
    if its numbers are between one and the order and the sum of the multiples of the generator and
    of the public key has the x coordinate `r` modulo the order.  The comparison of x coordinates is
    that of the affine coordinate reduced, whichever function it is. -/
theorem ecdsa_sign_verify {p n : Nat} [Fact p.Prime] [Fact n.Prime] (group : EcdsaGroup p n) :
    (∀ (privKey k : ZMod n) (pubKey : EcJacobian (ZMod p)) (digest : Bytes) (sig : EcdsaSig),
      k ≠ 0 → group.curve.Represents (group.coordinates pubKey) (privKey.val • group.generator) →
      ecdsaSignImpl group.toEcdsaParams privKey k digest = .signature sig →
      ecdsaDoVerifyNoSelfTest group.toEcdsaParams digest sig pubKey = true) ∧
    (∀ (digest : Bytes) (sig : EcdsaSig) (pubKey : EcJacobian (ZMod p)) (Q : group.curve.Point),
      group.curve.Represents (group.coordinates pubKey) Q →
      (ecdsaDoVerifyNoSelfTest group.toEcdsaParams digest sig pubKey = true ↔
        (1 ≤ sig.r ∧ sig.r < n) ∧ (1 ≤ sig.s ∧ sig.s < n) ∧
        ∃ x y hns, ((leftmostBits n digest : ZMod n) / (sig.s : ZMod n)).val • group.generator +
          ((sig.r : ZMod n) / (sig.s : ZMod n)).val • Q = .some x y hns ∧
          ((x.val % n : Nat) : Int) = sig.r)) ∧ (∀ (point : EcJacobian (ZMod p)) (r : ZMod n),
      ecCmpXCoordinate group.toEcdsaParams point r = true ↔
        point.Z ≠ 0 ∧ (group.affineX point).val % n = r.val) := by
  refine ⟨?_, ?_, ecCmpXCoordinate_iff group⟩
  · intro privKey k pubKey digest sig hk hpub hsign
    obtain ⟨r, s, hsigr, hsigs, hrne, hsne, hs, hpoint⟩ :=
      ecdsaSignImpl_eq_signature group hk hsign
    -- the two multiples are the multiple of the nonce
    have hnonce : (leftmostBits n digest : ZMod n) / s + r / s * privKey = k := by
      have hsum : privKey * r + leftmostBits n digest = s * k := by
        rw [hs, mul_assoc, inv_mul_cancel₀ hk, mul_one]
      field_simp
      linear_combination hsum
    rw [ecdsaDoVerify_iff group digest sig hpub]
    refine ⟨r, s, hsigr, hsigs, hrne, hsne, ?_⟩
    rw [val_nsmul_generator, natCast_zmod_val, hnonce]
    exact hpoint
  · intro digest sig pubKey Q hQ
    rw [ecdsaDoVerify_iff group digest sig hQ]
    constructor
    · rintro ⟨r, s, hsigr, hsigs, hrne, hsne, x, y, hns, hpoint, hx⟩
      have hrpos := (val_ne_zero r).mpr hrne
      have hspos := (val_ne_zero s).mpr hsne
      have hrlt := r.val_lt
      have hslt := s.val_lt
      have hrcast : (sig.r : ZMod n) = r := by
        rw [hsigr, Int.cast_natCast, natCast_zmod_val]
      have hscast : (sig.s : ZMod n) = s := by
        rw [hsigs, Int.cast_natCast, natCast_zmod_val]
      rw [hrcast, hscast]
      exact ⟨⟨by omega, by omega⟩, ⟨by omega, by omega⟩, x, y, hns, hpoint, by rw [hx, hsigr]⟩
    · rintro ⟨⟨hrpos, hrlt⟩, ⟨hspos, hslt⟩, x, y, hns, hpoint, hx⟩
      have hval : ∀ v : Int, 1 ≤ v → v < n → v = ((v : ZMod n).val : Int) := by
        intro v hpos hlt
        rw [val_intCast, Int.emod_eq_of_lt (by omega) hlt]
      have hcast : ∀ v : Int, 1 ≤ v → v < n → (v : ZMod n) ≠ 0 := by
        intro v hpos hlt hzero
        have hv := hval v hpos hlt
        rw [hzero, val_zero] at hv
        omega
      refine ⟨sig.r, sig.s, hval _ hrpos hrlt, hval _ hspos hslt, hcast _ hrpos hrlt,
        hcast _ hspos hslt, x, y, hns, hpoint, ?_⟩
      have hr := hval _ hrpos hrlt
      omega

instance factPrimeSeven : Fact (Nat.Prime 7) := ⟨by decide⟩

theorem smallGenerator_represents :
    smallGroup.Represents ⟨0, 1, 1⟩ (.some _ _ smallGroup_nonsingular) :=
  Or.inr ⟨by decide, smallGroup_nonsingular, rfl⟩

def smallParams : EcdsaParams 5 7 where
  curve := smallGroup
  fieldWidth := 1
  orderWidth := 1
  montgomery := false
  cmpXCoordinate := .mont
  mulBase k := repeatedSum smallGroup ⟨0, 1, 1⟩ k.val
  mulPublic g point k :=
    ecGfpMontAdd smallGroup none (repeatedSum smallGroup ⟨0, 1, 1⟩ g.val)
      (some (repeatedSum smallGroup point k.val))

theorem smallParams_coordinates (point : EcJacobian (ZMod 5)) :
    smallParams.coordinates point = point := by
  have hone : smallParams.fieldR = 1 := rfl
  unfold EcdsaParams.coordinates pointFromMontgomery fromMontgomery
  rw [hone, inv_one, mul_one, mul_one, mul_one]

def smallEcdsa : EcdsaGroup 5 7 where
  toEcdsaParams := smallParams
  generator := .some _ _ smallGroup_nonsingular
  order_generator := by
    have hseven :=
      repeatedSum_represents (two_ne_zero_zmod (by decide)) smallGenerator_represents 7
    refine addOrderOf_eq_prime ?_ (WeierstrassCurve.Affine.Point.some_ne_zero _)
    rcases hseven with ⟨-, h⟩ | ⟨h, -⟩
    · exact h
    · exact absurd (by decide) h
  field_lt_twice := by decide
  three_lt_field := by decide
  order_ne_two := by decide
  field_lt := by decide
  order_lt := by decide
  order_lt_of_nistp := nofun
  mulBase_represents k := by
    rw [smallParams_coordinates]
    exact repeatedSum_represents (two_ne_zero_zmod (by decide)) smallGenerator_represents k.val
  mulPublic_represents g point k P h := by
    rw [smallParams_coordinates] at h ⊢
    have hG := repeatedSum_represents (two_ne_zero_zmod (by decide)) smallGenerator_represents g.val
    have hP := repeatedSum_represents (two_ne_zero_zmod (by decide)) h k.val
    change smallGroup.Represents (ecGfpMontAdd smallGroup none _ (some _)) _
    rw [ecGfpMontAdd_eq]
    exact addOf_represents (two_ne_zero_zmod (by decide)) hG hP

/-- Verification with the group of order 7; it is too small to sign with, which takes an order of
    160 bits. -/
theorem ecdsa_verify_small : ecdsaDoVerifyNoSelfTest smallParams [0xa0] ⟨1, 3⟩ ⟨0, 1, 1⟩ = true ∧
    ∃ x y hns, ((leftmostBits 7 [0xa0] : ZMod 7) / ((3 : Int) : ZMod 7)).val •
        smallEcdsa.generator + (((1 : Int) : ZMod 7) / ((3 : Int) : ZMod 7)).val •
          smallEcdsa.generator = .some x y hns ∧ ((x.val % 7 : Nat) : Int) = 1 := by
  have haccepted : ecdsaDoVerifyNoSelfTest smallParams [0xa0] ⟨1, 3⟩ ⟨0, 1, 1⟩ = true := by
    decide +kernel
  have hG : smallGroup.Represents (smallParams.coordinates ⟨0, 1, 1⟩) smallEcdsa.generator := by
    rw [smallParams_coordinates]
    exact smallGenerator_represents
  exact ⟨haccepted, (((ecdsa_sign_verify smallEcdsa).2.1 _ _ _ _ hG).mp haccepted).2.2⟩

end AwsLc
