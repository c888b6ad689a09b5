import AwsLc.ByteString
import AwsLc.EcJacobian
import Mathlib.Data.Nat.Size

/-!
# Points as octets

`EC_POINT_point2oct` and `EC_POINT_oct2point`, for curves over the field of `p` elements.  The
compressed and the hybrid form keep the parity of `y` in the first byte.  `BN_mod_sqrt` is a
parameter that finds a square root of every square.
-/

namespace AwsLc

open BigEndian List Option

/-! ### The source -/

inductive PointConversionForm where
  | compressed
  | uncompressed
  | hybrid
deriving DecidableEq

open PointConversionForm

def PointConversionForm.value : PointConversionForm → UInt8
  | .compressed => 2
  | .uncompressed => 4
  | .hybrid => 6

structure EcAffine (F : Type) where
  X : F
  Y : F

/-- `BN_num_bytes(&group->field.N)`. -/
def fieldLen (p : Nat) : Nat := (p.size + 7) / 8

structure ModSqrt (p : Nat) where
  sqrt : ZMod p → Option (ZMod p)
  sound : ∀ v y, sqrt v = some y → y ^ 2 = v
  complete : ∀ y, ∃ z, sqrt (y ^ 2) = some z

variable {p : Nat}

def ecFelemToBytes (x : ZMod p) : Bytes := beBytes (fieldLen p) x.val

def ecFelemFromBytes (p : Nat) (inp : Bytes) : Option (ZMod p) :=
  if inp.length ≠ fieldLen p then none
  else if ¬beNat inp < p then none
  else some (beNat inp : Nat)

section

variable [Fact p.Prime] (group : EcGroup (ZMod p))

def ecPointByteLen (p : Nat) (form : PointConversionForm) : Nat :=
  let outputLen := 1 + fieldLen p
  if form = .uncompressed ∨ form = .hybrid then outputLen + fieldLen p else outputLen

def ecPointToBytes (point : EcAffine (ZMod p)) (form : PointConversionForm) (len : Nat) :
    Option Bytes :=
  if len < ecPointByteLen p form then none
  else
    let x := ecFelemToBytes point.X
    let y := ecFelemToBytes point.Y
    if form = .uncompressed then some (form.value :: (x ++ y))
    else
      let first := form.value + (y.getD (fieldLen p - 1) 0 &&& 1)
      if form = .hybrid then some (first :: (x ++ y)) else some (first :: x)

variable (point : EcJacobian (ZMod p))

def ecJacobianToAffine : Option (EcAffine (ZMod p)) :=
  if point.Z = 0 then none
  else
    let z2 := point.Z⁻¹
    let z1 := z2 ^ 2
    let x := point.X * z1
    let z1 := z1 * z2
    some ⟨x, point.Y * z1⟩

def ecAffineToJacobian (point : EcAffine (ZMod p)) : EcJacobian (ZMod p) := ⟨point.X, point.Y, 1⟩

def ecPointPoint2oct (form : PointConversionForm) (len : Nat) : Option Bytes :=
  if point.Z = 0 then if len < 1 then none else some [0]
  else do
    let affine ← ecJacobianToAffine point
    ecPointToBytes affine form len

def ecPointSetAffineCoordinates (x y : ZMod p) : Option (EcAffine (ZMod p)) :=
  let lhs := y ^ 2
  let rhs := x ^ 2
  let rhs := rhs + group.a
  let rhs := rhs * x
  let rhs := rhs + group.b
  if lhs ≠ rhs then none else some ⟨x, y⟩

def ecPointFromCoordinates (inp : Bytes) : Option (EcAffine (ZMod p)) := do
  let x ← ecFelemFromBytes p ((inp.drop 1).take (fieldLen p))
  let y ← ecFelemFromBytes p ((inp.drop (1 + fieldLen p)).take (fieldLen p))
  ecPointSetAffineCoordinates group x y

def ecPointFromUncompressed (inp : Bytes) : Option (EcAffine (ZMod p)) :=
  if inp.length ≠ 1 + 2 * fieldLen p ∨ inp.headD 0 ≠ uncompressed.value then
    none
  else ecPointFromCoordinates group inp

def ecPointFromHybrid (inp : Bytes) : Option (EcAffine (ZMod p)) :=
  if inp.length ≠ 1 + 2 * fieldLen p ∨
      inp.headD 0 &&& 0xfe ≠ hybrid.value ∨
      inp.headD 0 &&& 1 ≠ inp.getD (1 + fieldLen p * 2 - 1) 0 &&& 1 then none
  else ecPointFromCoordinates group inp

def isOdd (y : ZMod p) : Bool := y.val % 2 == 1

def ecPointSetCompressedCoordinates (root : ModSqrt p) (x : Nat) (yBit : Bool) :
    Option (EcJacobian (ZMod p)) :=
  if p ≤ x then none
  else
    let x : ZMod p := x
    let tmp2 := x ^ 2
    let tmp1 := tmp2 * x
    let tmp1 :=
      if group.aIsMinus3 then
        let tmp2 := x + x
        let tmp2 := tmp2 + x
        tmp1 - tmp2
      else
        let tmp2 := group.a * x
        tmp1 + tmp2
    let tmp1 := tmp1 + group.b
    do
      let y ← root.sqrt tmp1
      if yBit ≠ isOdd y ∧ y = 0 then none
      else
        let y := if yBit ≠ isOdd y then ((p - y.val : Nat) : ZMod p) else y
        if yBit ≠ isOdd y then none
        else (ecPointSetAffineCoordinates group x y).map ecAffineToJacobian

def ecPointOct2point (root : ModSqrt p) (buf : Bytes) : Option (EcJacobian (ZMod p)) :=
  if buf.length = 0 then none
  else
    let form := buf.headD 0
    if form = 0 then if buf.length ≠ 1 then none else some ⟨0, 0, 0⟩
    else
      let yBit := form &&& 1 == 1
      let form := form &&& 0xfe
      if form = uncompressed.value then
        (ecPointFromUncompressed group buf).map ecAffineToJacobian
      else if form = hybrid.value then
        (ecPointFromHybrid group buf).map ecAffineToJacobian
      else if form ≠ compressed.value ∨ buf.length ≠ 1 + fieldLen p then none
      else
        let x := beNat ((buf.drop 1).take (fieldLen p))
        if p ≤ x then none else ecPointSetCompressedCoordinates group root x yBit

def EcGroup.Equation (x y : ZMod p) : Prop := y ^ 2 = x ^ 3 + group.a * x + group.b

def EcGroup.OnCurve : Prop :=
  point.Z ≠ 0 → group.Equation (point.X / point.Z ^ 2) (point.Y / point.Z ^ 3)

def SamePoint (point other : EcJacobian (ZMod p)) : Prop :=
  (point.Z = 0 ↔ other.Z = 0) ∧ (point.Z ≠ 0 →
    point.X / point.Z ^ 2 = other.X / other.Z ^ 2 ∧ point.Y / point.Z ^ 3 = other.Y / other.Z ^ 3)

end

theorem fieldLen_pos (hp : 3 < p) : 0 < fieldLen p := by
  have hsize : 0 < p.size := Nat.size_pos.mpr (by omega)
  unfold fieldLen
  omega

theorem lt_pow_fieldLen (p : Nat) : p < 256 ^ fieldLen p := by
  have hlt := Nat.lt_size_self p
  have hle : p.size ≤ 8 * fieldLen p := by
    unfold fieldLen
    omega
  calc p < 2 ^ p.size := hlt
    _ ≤ 2 ^ (8 * fieldLen p) := Nat.pow_le_pow_right (by decide) hle
    _ = 256 ^ fieldLen p := by rw [Nat.pow_mul]

theorem length_ecFelemToBytes (x : ZMod p) : (ecFelemToBytes x).length = fieldLen p :=
  length_beBytes _ _

section

variable [NeZero p]

theorem beNat_ecFelemToBytes (x : ZMod p) : beNat (ecFelemToBytes x) = x.val :=
  beNat_beBytes_of_lt (x.val_lt.trans (lt_pow_fieldLen p))

theorem ecFelemFromBytes_eq_some {inp : Bytes} {x : ZMod p} :
    ecFelemFromBytes p inp = some x ↔ inp = ecFelemToBytes x := by
  unfold ecFelemFromBytes
  constructor
  · intro h
    split at h
    · cases h
    next hlength =>
    split at h
    · cases h
    next hlt =>
    cases h
    rw [not_not] at hlength hlt
    rw [ecFelemToBytes, ZMod.val_natCast_of_lt hlt, ← hlength, beBytes_beNat]
  · rintro rfl
    rw [if_neg (not_not.mpr (length_ecFelemToBytes x)), beNat_ecFelemToBytes,
      if_neg (not_not.mpr x.val_lt), ZMod.natCast_zmod_val]

end

theorem ofNat_and_one (n : Nat) : UInt8.ofNat n &&& 1 = if n % 2 == 1 then 1 else 0 := by
  apply UInt8.toNat_inj.mp
  rw [UInt8.toNat_and, UInt8.toNat_one, Nat.and_one_is_mod, UInt8.toNat_ofNat']
  have hmod : n % 2 ^ 8 % 2 = n % 2 := by omega
  rw [hmod]
  rcases Nat.mod_two_eq_zero_or_one n with hn | hn <;> rw [hn] <;> rfl

theorem getD_ecFelemToBytes (hpos : 0 < fieldLen p) (y : ZMod p) :
    (ecFelemToBytes y).getD (fieldLen p - 1) 0 &&& 1 = if isOdd y then 1 else 0 := by
  unfold ecFelemToBytes isOdd
  obtain ⟨n, hn⟩ : ∃ n, fieldLen p = n + 1 := ⟨fieldLen p - 1, by omega⟩
  have hlast : (beBytes (n + 1) y.val).getD n 0 = UInt8.ofNat y.val := by
    rw [beBytes, getD_eq_getElem?_getD, List.getElem?_append_right (by simp),
      length_beBytes, Nat.sub_self]
    rfl
  rw [hn, Nat.add_sub_cancel, hlast, ofNat_and_one]

section

variable [NeZero p]

/-- Taking the negative changes the parity, as the field has an odd number of elements. -/
theorem isOdd_neg (hodd : p % 2 = 1) {y : ZMod p} (hy : y ≠ 0) : isOdd (-y) = !isOdd y := by
  have hlt := y.val_lt
  have hneg : (-y).val = p - y.val := by
    have : NeZero y := ⟨hy⟩
    exact ZMod.val_neg_of_ne_zero y
  unfold isOdd
  rw [hneg]
  rcases Nat.mod_two_eq_zero_or_one y.val with hval | hval
  · have hother : (p - y.val) % 2 = 1 := by omega
    rw [hval, hother]
    rfl
  · have hother : (p - y.val) % 2 = 0 := by omega
    rw [hval, hother]
    rfl

theorem natCast_sub_val (y : ZMod p) : ((p - y.val : Nat) : ZMod p) = -y := by
  rw [Nat.cast_sub y.val_lt.le, ZMod.natCast_self, ZMod.natCast_zmod_val, zero_sub]

end

section

variable [Fact p.Prime] {group : EcGroup (ZMod p)}

theorem ecPointSetAffineCoordinates_eq_some {x y : ZMod p} {point : EcAffine (ZMod p)} :
    ecPointSetAffineCoordinates group x y = some point ↔ group.Equation x y ∧ point = ⟨x, y⟩ := by
  have hrhs : (x ^ 2 + group.a) * x + group.b = x ^ 3 + group.a * x + group.b := by ring
  unfold ecPointSetAffineCoordinates EcGroup.Equation
  dsimp only
  rw [hrhs]
  by_cases heq : y ^ 2 = x ^ 3 + group.a * x + group.b
  · rw [if_neg (not_not.mpr heq), some_inj]
    exact ⟨fun h => ⟨heq, h.symm⟩, fun h => h.2.symm⟩
  · rw [if_pos heq]
    exact ⟨nofun, fun h => absurd h.1 heq⟩

variable (form : PointConversionForm)

/-- The first byte of the forms with the parity of `y`. -/
def firstByte (odd : Bool) : UInt8 :=
  form.value + if odd then 1 else 0

theorem firstByte_bits (odd : Bool) :
    firstByte form odd ≠ 0 ∧ firstByte form odd &&& 0xfe = form.value ∧
      (firstByte form odd &&& 1 == 1) = odd ∧ firstByte form odd &&& 1 = if odd then 1 else 0 := by
  cases form <;> cases odd <;> decide

theorem eq_firstByte {first : UInt8} {form : PointConversionForm}
    (h : first &&& 0xfe = form.value) : first = firstByte form (first &&& 1 == 1) := by
  revert first
  apply forall_byte
  cases form <;> decide +kernel

variable {point : EcJacobian (ZMod p)}

/-- **Recovering `y`.**  There is one point with an `x` and a parity of `y`. -/
theorem setCompressed_eq_some (hp : 3 < p) (root : ModSqrt p) {x : Nat} {yBit : Bool} :
    ecPointSetCompressedCoordinates group root x yBit = some point ↔
      x < p ∧ ∃ y : ZMod p, group.Equation x y ∧ isOdd y = yBit ∧ point = ⟨x, y, 1⟩ := by
  have hodd : p % 2 = 1 := (Nat.Prime.eq_two_or_odd Fact.out).resolve_left (by omega)
  unfold ecPointSetCompressedCoordinates
  by_cases hx : p ≤ x
  · rw [if_pos hx]
    exact ⟨nofun, fun h => by omega⟩
  rw [if_neg hx]
  dsimp only
  have hrhs : (if group.aIsMinus3 = true then (x : ZMod p) ^ 2 * x - (x + x + x)
      else (x : ZMod p) ^ 2 * x + group.a * x) + group.b =
      (x : ZMod p) ^ 3 + group.a * x + group.b := by
    by_cases ha : group.aIsMinus3 = true
    · rw [if_pos ha, group.aIsMinus3_iff.mp ha]
      ring
    · rw [if_neg ha]
      ring
  rw [hrhs]
  constructor
  · intro h
    obtain ⟨z, hz, hrest⟩ := bind_eq_some_iff.mp h
    generalize (if yBit ≠ isOdd z then ((p - z.val : Nat) : ZMod p) else z) = y at hrest
    split at hrest
    · cases hrest
    split at hrest
    · cases hrest
    next hparity =>
    obtain ⟨affine, haffine, rfl⟩ := map_eq_some_iff.mp hrest
    obtain ⟨heq, rfl⟩ := ecPointSetAffineCoordinates_eq_some.mp haffine
    exact ⟨by omega, _, heq, (not_not.mp hparity).symm, rfl⟩
  · rintro ⟨-, y, heq, rfl, rfl⟩
    have hsquare : (x : ZMod p) ^ 3 + group.a * x + group.b = y ^ 2 := heq.symm
    obtain ⟨z, hz⟩ := root.complete y
    rw [hsquare, hz]
    change (if isOdd y ≠ isOdd z ∧ z = 0 then none else _) = _
    have hset : ecPointSetAffineCoordinates group (x : ZMod p) y = some ⟨x, y⟩ :=
      ecPointSetAffineCoordinates_eq_some.mpr ⟨heq, rfl⟩
    rcases sq_eq_sq_iff_eq_or_eq_neg.mp (root.sound _ _ hz) with rfl | rfl
    · rw [if_neg (fun h => h.1 rfl), if_neg (not_not.mpr rfl), if_neg (not_not.mpr rfl), hset]
      rfl
    · by_cases hy : y = 0
      · subst hy
        rw [neg_zero, if_neg (fun h => h.1 rfl), if_neg (not_not.mpr rfl),
          if_neg (not_not.mpr rfl), hset]
        rfl
      · have hneg := isOdd_neg hodd hy
        have hne : isOdd y ≠ isOdd (-y) := by
          rw [hneg]
          cases isOdd y <;> decide
        rw [if_neg (fun h => neg_ne_zero.mpr hy h.2), if_pos hne, natCast_sub_val, neg_neg,
          if_neg (not_not.mpr rfl), hset]
        rfl

/-! ### Encoding and decoding -/

def encodingOf (x y : ZMod p) : Bytes :=
  match form with
  | .compressed => firstByte .compressed (isOdd y) :: ecFelemToBytes x
  | .uncompressed => firstByte .uncompressed false :: (ecFelemToBytes x ++ ecFelemToBytes y)
  | .hybrid => firstByte .hybrid (isOdd y) :: (ecFelemToBytes x ++ ecFelemToBytes y)

omit [Fact p.Prime] in
theorem length_encodingOf (x y : ZMod p) :
    (encodingOf form x y).length = ecPointByteLen p form := by
  cases form <;> simp [encodingOf, ecPointByteLen, length_ecFelemToBytes] <;> omega

omit [Fact p.Prime] in
theorem ecPointToBytes_eq (hp : 3 < p) (form : PointConversionForm) (x y : ZMod p) {len : Nat}
    (hlen : ecPointByteLen p form ≤ len) :
    ecPointToBytes ⟨x, y⟩ form len = some (encodingOf form x y) := by
  unfold ecPointToBytes
  rw [if_neg (Nat.not_lt.mpr hlen)]
  dsimp only
  rw [getD_ecFelemToBytes (fieldLen_pos hp)]
  cases form <;> rfl

theorem ecPointFromCoordinates_eq_some {inp : Bytes} (hlength : inp.length = 1 + 2 * fieldLen p)
    {point : EcAffine (ZMod p)} : ecPointFromCoordinates group inp = some point ↔
      inp.drop 1 = ecFelemToBytes point.X ++ ecFelemToBytes point.Y ∧
        group.Equation point.X point.Y := by
  have hsplit : inp.drop 1 = (inp.drop 1).take (fieldLen p) ++
      (inp.drop (1 + fieldLen p)).take (fieldLen p) := by
    conv_lhs => rw [← take_append_drop (fieldLen p) (inp.drop 1), drop_drop]
    congr 1
    rw [take_of_length_le]
    rw [length_drop]
    omega
  have htake : ((inp.drop 1).take (fieldLen p)).length = fieldLen p := by
    rw [length_take, length_drop]
    omega
  unfold ecPointFromCoordinates
  constructor
  · intro h
    obtain ⟨x, hx, h⟩ := bind_eq_some_iff.mp h
    obtain ⟨y, hy, h⟩ := bind_eq_some_iff.mp h
    obtain ⟨heq, rfl⟩ := ecPointSetAffineCoordinates_eq_some.mp h
    rw [hsplit, ecFelemFromBytes_eq_some.mp hx, ecFelemFromBytes_eq_some.mp hy]
    exact ⟨rfl, heq⟩
  · rintro ⟨hbytes, heq⟩
    rw [hsplit] at hbytes
    obtain ⟨hx, hy⟩ := List.append_inj hbytes (htake.trans (length_ecFelemToBytes _).symm)
    rw [hx, hy]
    refine bind_of_eq_some (ecFelemFromBytes_eq_some.mpr rfl) ?_
    refine bind_of_eq_some (ecFelemFromBytes_eq_some.mpr rfl) ?_
    exact ecPointSetAffineCoordinates_eq_some.mpr ⟨heq, rfl⟩

theorem fromUncompressed_eq_some {inp : Bytes} {point : EcAffine (ZMod p)} :
    ecPointFromUncompressed group inp = some point ↔
      inp = encodingOf .uncompressed point.X point.Y ∧ group.Equation point.X point.Y := by
  unfold ecPointFromUncompressed
  by_cases hlength : inp.length = 1 + 2 * fieldLen p
  · obtain ⟨first, rest, rfl⟩ := exists_cons_of_length_pos (l := inp) (by omega)
    by_cases hfirst : first = uncompressed.value
    · have hchecks : ¬((first :: rest).length ≠ 1 + 2 * fieldLen p ∨
          (first :: rest).headD 0 ≠ uncompressed.value) := by
        rw [not_or, not_not, not_not]
        exact ⟨hlength, hfirst⟩
      rw [if_neg hchecks, ecPointFromCoordinates_eq_some hlength]
      simp only [drop_one, tail_cons, encodingOf, List.cons.injEq, hfirst]
      exact ⟨fun h => ⟨⟨rfl, h.1⟩, h.2⟩, fun h => ⟨h.1.2, h.2⟩⟩
    · have hother : (first :: rest).headD 0 ≠ uncompressed.value := hfirst
      rw [if_pos (Or.inr hother)]
      refine ⟨nofun, fun h => absurd (List.cons.inj h.1).1 hfirst⟩
  · rw [if_pos (Or.inl hlength)]
    refine ⟨nofun, fun h => absurd ?_ hlength⟩
    rw [h.1, length_encodingOf]
    simp only [ecPointByteLen, true_or, if_true]
    omega

theorem fromHybrid_eq_some (hp : 3 < p) {inp : Bytes} {point : EcAffine (ZMod p)} :
    ecPointFromHybrid group inp = some point ↔
      inp = encodingOf .hybrid point.X point.Y ∧ group.Equation point.X point.Y := by
  have hpos := fieldLen_pos hp
  -- the parity that is compared is the one of the second coordinate
  have hlast : ∀ first : UInt8, (first :: (ecFelemToBytes point.X ++ ecFelemToBytes point.Y)).getD
      (1 + fieldLen p * 2 - 1) 0 &&& 1 = if isOdd point.Y then 1 else 0 := by
    intro first
    have hindex : 1 + fieldLen p * 2 - 1 = (fieldLen p + (fieldLen p - 1)) + 1 := by omega
    rw [hindex, getD_cons_succ, getD_eq_getElem?_getD, List.getElem?_append_right (by
      rw [length_ecFelemToBytes]; omega), length_ecFelemToBytes, Nat.add_sub_cancel_left,
      ← getD_eq_getElem?_getD, getD_ecFelemToBytes hpos]
  unfold ecPointFromHybrid
  by_cases hlength : inp.length = 1 + 2 * fieldLen p
  · obtain ⟨first, rest, rfl⟩ := exists_cons_of_length_pos (l := inp) (by omega)
    constructor
    · intro h
      split at h
      · cases h
      next hchecks =>
      simp only [not_or, not_not] at hchecks
      obtain ⟨-, hform, hparity⟩ := hchecks
      obtain ⟨hbytes, heq⟩ := (ecPointFromCoordinates_eq_some hlength).mp h
      rw [drop_one, tail_cons] at hbytes
      subst hbytes
      rw [hlast, headD_cons] at hparity
      rw [headD_cons] at hform
      refine ⟨?_, heq⟩
      have hbyte := eq_firstByte hform
      rw [hparity] at hbyte
      rw [encodingOf, hbyte]
      congr 2
      cases isOdd point.Y <;> rfl
    · rintro ⟨hbytes, heq⟩
      obtain ⟨hnonzero, hform, -, hparity⟩ := firstByte_bits .hybrid (isOdd point.Y)
      obtain ⟨rfl, rfl⟩ := List.cons.inj hbytes
      rw [if_neg, ecPointFromCoordinates_eq_some hlength]
      · exact ⟨rfl, heq⟩
      · simp only [not_or, not_not]
        refine ⟨hlength, hform, ?_⟩
        rw [hlast, headD_cons, hparity]
  · rw [if_pos (Or.inl hlength)]
    refine ⟨nofun, fun h => absurd ?_ hlength⟩
    rw [h.1, length_encodingOf]
    simp only [ecPointByteLen, or_true, if_true]
    omega

omit [Fact p.Prime] in
theorem encodingOf_first (x y : ZMod p) :
    (encodingOf form x y).headD 0 ≠ 0 ∧ (encodingOf form x y).headD 0 &&& 0xfe = form.value := by
  cases form with
  | compressed =>
    obtain ⟨hnonzero, hform, -⟩ := firstByte_bits .compressed (isOdd y)
    exact ⟨hnonzero, hform⟩
  | uncompressed =>
    obtain ⟨hnonzero, hform, -⟩ := firstByte_bits .uncompressed false
    exact ⟨hnonzero, hform⟩
  | hybrid =>
    obtain ⟨hnonzero, hform, -⟩ := firstByte_bits .hybrid (isOdd y)
    exact ⟨hnonzero, hform⟩

theorem value_injective {form form' : PointConversionForm} (h : form.value = form'.value) :
    form = form' := by
  revert h
  cases form <;> cases form' <;> decide

theorem fromCompressed_eq_some (hp : 3 < p) (root : ModSqrt p) {first : UInt8} {rest : Bytes}
    (hform : first &&& 0xfe = compressed.value) :
    (if (first :: rest).length ≠ 1 + fieldLen p then none
      else if p ≤ beNat (((first :: rest).drop 1).take (fieldLen p)) then none
      else ecPointSetCompressedCoordinates group root
        (beNat (((first :: rest).drop 1).take (fieldLen p))) (first &&& 1 == 1)) = some point ↔
      ∃ x y, group.Equation x y ∧ first :: rest = encodingOf .compressed x y ∧
        point = ⟨x, y, 1⟩ := by
  by_cases hlength : (first :: rest).length = 1 + fieldLen p
  swap
  · rw [if_pos hlength]
    refine ⟨nofun, ?_⟩
    rintro ⟨x, y, -, hbytes, -⟩
    refine absurd ?_ hlength
    rw [hbytes, length_encodingOf]
    rfl
  rw [if_neg (not_not.mpr hlength)]
  have hrest : rest.length = fieldLen p := by
    rw [length_cons] at hlength
    omega
  rw [drop_one, tail_cons, take_of_length_le hrest.le]
  constructor
  · intro h
    split at h
    · cases h
    next hx =>
    obtain ⟨hlt, y, heq, hparity, rfl⟩ := (setCompressed_eq_some hp root).mp h
    refine ⟨beNat rest, y, heq, ?_, rfl⟩
    have hbytes : ecFelemToBytes ((beNat rest : Nat) : ZMod p) = rest := by
      rw [ecFelemToBytes, ZMod.val_natCast_of_lt hlt, ← hrest, beBytes_beNat]
    rw [encodingOf, hparity, ← eq_firstByte hform, hbytes]
  · rintro ⟨x, y, heq, hbytes, rfl⟩
    obtain ⟨rfl, rfl⟩ := List.cons.inj hbytes
    obtain ⟨-, -, hbit, -⟩ := firstByte_bits .compressed (isOdd y)
    rw [beNat_ecFelemToBytes, if_neg (Nat.not_le.mpr x.val_lt), hbit, setCompressed_eq_some hp root,
      ZMod.natCast_zmod_val]
    exact ⟨x.val_lt, y, heq, rfl, rfl⟩

/-- **What is decoded**: a zero byte, or one of the encodings of a point on the curve. -/
theorem oct2point_eq_some (hp : 3 < p) (root : ModSqrt p) {buf : Bytes} :
    ecPointOct2point group root buf = some point ↔ (buf = [0] ∧ point = ⟨0, 0, 0⟩) ∨
        ∃ form x y, group.Equation x y ∧ buf = encodingOf form x y ∧ point = ⟨x, y, 1⟩ := by
  unfold ecPointOct2point
  rcases buf with _ | ⟨first, rest⟩
  · refine ⟨nofun, ?_⟩
    rintro (⟨h, -⟩ | ⟨form, x, y, -, h, -⟩)
    · cases h
    · cases form <;> cases h
  rw [if_neg (by simp)]
  dsimp only
  rw [headD_cons]
  by_cases hzero : first = 0
  · subst hzero
    rw [if_pos rfl]
    constructor
    · intro h
      split at h
      · cases h
      next hlength =>
      cases h
      have hrest : rest = [] := eq_nil_of_length_eq_zero (Nat.succ.inj (not_not.mp hlength))
      exact Or.inl ⟨by rw [hrest], rfl⟩
    · rintro (⟨h, rfl⟩ | ⟨form, x, y, -, h, -⟩)
      · rw [h]
        rfl
      · have hfirst := (encodingOf_first form x y).1
        rw [← h] at hfirst
        exact absurd rfl hfirst
  rw [if_neg hzero]
  have hinfinity : ¬first :: rest = [0] := fun h => hzero (List.cons.inj h).1
  -- the form of the encoding is the one of the first byte
  have hforms : ∀ form form' (x y : ZMod p), first &&& 0xfe = value form →
      first :: rest = encodingOf form' x y → form' = form := by
    intro form form' x y hform h
    have hfirst := (encodingOf_first form' x y).2
    rw [← h] at hfirst
    exact value_injective (hfirst.symm.trans hform)
  by_cases hunc : first &&& 0xfe = uncompressed.value
  · rw [if_pos hunc, map_eq_some_iff]
    constructor
    · rintro ⟨affine, h, rfl⟩
      obtain ⟨hbytes, heq⟩ := fromUncompressed_eq_some.mp h
      exact Or.inr ⟨.uncompressed, affine.X, affine.Y, heq, hbytes, rfl⟩
    · rintro (⟨h, -⟩ | ⟨form, x, y, heq, h, rfl⟩)
      · exact absurd h hinfinity
      · obtain rfl := hforms _ _ _ _ hunc h
        exact ⟨⟨x, y⟩, fromUncompressed_eq_some.mpr ⟨h, heq⟩, rfl⟩
  rw [if_neg hunc]
  by_cases hhyb : first &&& 0xfe = hybrid.value
  · rw [if_pos hhyb, map_eq_some_iff]
    constructor
    · rintro ⟨affine, h, rfl⟩
      obtain ⟨hbytes, heq⟩ := (fromHybrid_eq_some hp).mp h
      exact Or.inr ⟨.hybrid, affine.X, affine.Y, heq, hbytes, rfl⟩
    · rintro (⟨h, -⟩ | ⟨form, x, y, heq, h, rfl⟩)
      · exact absurd h hinfinity
      · obtain rfl := hforms _ _ _ _ hhyb h
        exact ⟨⟨x, y⟩, (fromHybrid_eq_some hp).mpr ⟨h, heq⟩, rfl⟩
  rw [if_neg hhyb]
  by_cases hcomp : first &&& 0xfe = compressed.value
  · have hor : (first &&& 0xfe ≠ compressed.value ∨
        (first :: rest).length ≠ 1 + fieldLen p) ↔ (first :: rest).length ≠ 1 + fieldLen p :=
      ⟨fun h => h.resolve_left (not_not.mpr hcomp), Or.inr⟩
    simp only [hor]
    rw [fromCompressed_eq_some hp root hcomp]
    constructor
    · rintro ⟨x, y, heq, hbytes, rfl⟩
      exact Or.inr ⟨.compressed, x, y, heq, hbytes, rfl⟩
    · rintro (⟨h, -⟩ | ⟨form, x, y, heq, h, rfl⟩)
      · exact absurd h hinfinity
      · obtain rfl := hforms _ _ _ _ hcomp h
        exact ⟨x, y, heq, h, rfl⟩
  · rw [if_pos (Or.inl hcomp)]
    refine ⟨nofun, ?_⟩
    rintro (⟨h, -⟩ | ⟨form, x, y, heq, h, rfl⟩)
    · exact absurd h hinfinity
    · have hfirst := (encodingOf_first form x y).2
      rw [← h] at hfirst
      rw [headD_cons] at hfirst
      cases form with
      | compressed => exact absurd hfirst hcomp
      | uncompressed => exact absurd hfirst hunc
      | hybrid => exact absurd hfirst hhyb

theorem point2oct_eq (hp : 3 < p) (hz : point.Z ≠ 0) (form : PointConversionForm) {len : Nat}
    (hlen : ecPointByteLen p form ≤ len) : ecPointPoint2oct point form len =
      some (encodingOf form (point.X / point.Z ^ 2) (point.Y / point.Z ^ 3)) := by
  have hx : point.X * point.Z⁻¹ ^ 2 = point.X / point.Z ^ 2 := by rw [inv_pow, div_eq_mul_inv]
  have hy : point.Y * (point.Z⁻¹ ^ 2 * point.Z⁻¹) = point.Y / point.Z ^ 3 := by
    rw [← pow_succ, inv_pow, div_eq_mul_inv]
  have haffine : ecJacobianToAffine point =
      some ⟨point.X / point.Z ^ 2, point.Y / point.Z ^ 3⟩ := by
    unfold ecJacobianToAffine
    rw [if_neg hz]
    dsimp only
    rw [hx, hy]
  unfold ecPointPoint2oct
  rw [if_neg hz]
  exact bind_of_eq_some haffine (ecPointToBytes_eq hp form _ _ hlen)

end

/-- **Octets of points.**  A point of the curve is read back from its octets in every form; the
    point at infinity is one zero byte.  The strings that are accepted are those of points on the
    curve, and are what the point is encoded to in the form that their first byte says. -/
theorem point_octets_canonical {p : Nat} [Fact p.Prime] (hp : 3 < p) (group : EcGroup (ZMod p))
    (root : ModSqrt p) : (∀ (point : EcJacobian (ZMod p)) (form : PointConversionForm) (len : Nat),
      group.OnCurve point → ecPointByteLen p form ≤ len →
      ∃ bytes other, ecPointPoint2oct point form len = some bytes ∧ (point.Z = 0 → bytes = [0]) ∧
        ecPointOct2point group root bytes = some other ∧ SamePoint other point) ∧
    (∀ (bytes : Bytes) (point : EcJacobian (ZMod p)),
      ecPointOct2point group root bytes = some point →
      group.OnCurve point ∧
      (bytes = [0] ∨ ∃ form : PointConversionForm, bytes.headD 0 &&& 0xfe = form.value) ∧
      ∀ (form : PointConversionForm) (len : Nat),
        ecPointByteLen p form ≤ len → bytes.headD 0 = 0 ∨ bytes.headD 0 &&& 0xfe = form.value →
        ecPointPoint2oct point form len = some bytes) := by
  have hlenPos : ∀ form, 1 ≤ ecPointByteLen p form := by
    intro form
    unfold ecPointByteLen
    dsimp only
    split <;> omega
  have hinfinity : ∀ (point : EcJacobian (ZMod p)) (form : PointConversionForm) (len : Nat),
      point.Z = 0 → ecPointByteLen p form ≤ len → ecPointPoint2oct point form len = some [0] := by
    intro point form len hz hlen
    have hpos := hlenPos form
    unfold ecPointPoint2oct
    rw [if_pos hz, if_neg (by omega)]
  constructor
  · intro point form len hcurve hlen
    by_cases hz : point.Z = 0
    · refine ⟨[0], ⟨0, 0, 0⟩, hinfinity point form len hz hlen, fun _ => rfl, ?_, ?_⟩
      · exact (oct2point_eq_some hp root).mpr (Or.inl ⟨rfl, rfl⟩)
      · exact ⟨⟨fun _ => hz, fun _ => rfl⟩, fun h => absurd rfl h⟩
    · refine ⟨_, _, point2oct_eq hp hz form hlen, fun h => absurd h hz,
        (oct2point_eq_some hp root).mpr (Or.inr ⟨form, _, _, hcurve hz, rfl, rfl⟩), ?_⟩
      refine ⟨⟨fun h => absurd h one_ne_zero, fun h => absurd h hz⟩, fun _ => ?_⟩
      simp
  · intro bytes point h
    rcases (oct2point_eq_some hp root).mp h with ⟨rfl, rfl⟩ | ⟨form, x, y, heq, rfl, rfl⟩
    · exact ⟨fun hz => absurd rfl hz, Or.inl rfl,
        fun form len hlen _ => hinfinity _ form len rfl hlen⟩
    · refine ⟨?_, Or.inr ⟨form, (encodingOf_first form x y).2⟩, ?_⟩
      · intro _
        simp only [one_pow, div_one]
        exact heq
      · intro form' len hlen hfirst
        obtain ⟨hnonzero, hform⟩ := encodingOf_first form x y
        have hsame : form' = form := by
          rcases hfirst with hfirst | hfirst
          · exact absurd hfirst hnonzero
          · exact value_injective (hfirst.symm.trans hform)
        rw [hsame] at hlen ⊢
        rw [point2oct_eq hp one_ne_zero form hlen]
        simp

def smallSqrt : ModSqrt 5 where
  sqrt v :=
    if v = 0 then some 0 else if v = 1 then some (-1) else if v = -1 then some (1 + 1) else none
  sound := by decide
  complete := by decide

theorem point_octets_small :
    ∃ bytes other, ecPointPoint2oct (⟨0, 1, 1⟩ : EcJacobian (ZMod 5)) .compressed 2 = some bytes ∧
      ecPointOct2point smallGroup smallSqrt bytes = some other ∧ SamePoint other ⟨0, 1, 1⟩ := by
  have hcurve : smallGroup.OnCurve ⟨0, 1, 1⟩ := by
    intro _
    simp only [one_pow, div_one, EcGroup.Equation, smallGroup]
    decide
  obtain ⟨bytes, other, hencode, -, hdecode, hsame⟩ :=
    (point_octets_canonical (by decide) smallGroup smallSqrt).1 ⟨0, 1, 1⟩ .compressed 2 hcurve
      (by decide)
  exact ⟨bytes, other, hencode, hdecode, hsame⟩

end AwsLc
