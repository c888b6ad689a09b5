import Mathlib.Algebra.Field.ZMod
import Mathlib.AlgebraicGeometry.EllipticCurve.Affine.Point
import Mathlib.Tactic.FieldSimp
import Mathlib.Tactic.LinearCombination

/-!
# Points in Jacobian coordinates

The point operations of `ec_nistp.c` and `ec_montgomery.c` over any field.  A point has the affine
coordinates `X / Z ^ 2` and `Y / Z ^ 3`, and is at infinity if `Z = 0`.

The functions may write their result over their first argument, so that a value is read after it was
replaced.  `EcCells` keeps the argument and the result of a function, as one place or as two.
-/

namespace AwsLc

open WeierstrassCurve

/-! ### The operations -/

structure EcJacobian (F : Type) where
  X : F
  Y : F
  Z : F
deriving DecidableEq

/-- The equation of a curve, `y ^ 2 = x ^ 3 + a * x + b`. -/
structure EcGroup (F : Type) [Field F] where
  a : F
  b : F
  aIsMinus3 : Bool
  aIsMinus3_iff : aIsMinus3 = true ↔ a = -3

/-- The first argument of a point operation and its result, over the argument if `overwrite`. -/
structure EcCells (F : Type) where
  overwrite : Bool
  inp : EcJacobian F
  out : EcJacobian F

open EcCells

namespace EcCells

variable {F : Type}

/-- The cells at the start; `old` is what the result is written over if not the argument. -/
def start (old : Option (EcJacobian F)) (inp : EcJacobian F) : EcCells F :=
  match old with
  | none => ⟨true, inp, inp⟩
  | some out => ⟨false, inp, out⟩

def setX (cells : EcCells F) (value : F) : EcCells F :=
  { cells with
    inp := if cells.overwrite then { cells.inp with X := value } else cells.inp
    out := { cells.out with X := value } }

def setY (cells : EcCells F) (value : F) : EcCells F :=
  { cells with
    inp := if cells.overwrite then { cells.inp with Y := value } else cells.inp
    out := { cells.out with Y := value } }

def setZ (cells : EcCells F) (value : F) : EcCells F :=
  { cells with
    inp := if cells.overwrite then { cells.inp with Z := value } else cells.inp
    out := { cells.out with Z := value } }

end EcCells

variable {F : Type} [Field F]
variable (old : Option (EcJacobian F))
variable (p : EcJacobian F)

def ecNistpPointDouble : EcJacobian F :=
  let c := start old p
  let delta := c.inp.Z ^ 2
  let gamma := c.inp.Y ^ 2
  let beta := c.inp.X * gamma
  -- alpha = 3*(x-delta)*(x+delta)
  let ftmp := c.inp.X - delta
  let ftmp2 := c.inp.X + delta
  let tmptmp := ftmp2 + ftmp2
  let ftmp2 := ftmp2 + tmptmp
  let alpha := ftmp * ftmp2
  -- x' = alpha^2 - 8*beta
  let c := c.setX (alpha ^ 2)
  let fourbeta := beta + beta
  let fourbeta := fourbeta + fourbeta
  let tmptmp := fourbeta + fourbeta
  let c := c.setX (c.out.X - tmptmp)
  -- z' = (y + z)^2 - gamma - delta
  let ftmp := c.inp.Y + c.inp.Z
  let c := c.setZ (ftmp ^ 2)
  let c := c.setZ (c.out.Z - gamma)
  let c := c.setZ (c.out.Z - delta)
  -- y' = alpha*(4*beta - x') - 8*gamma^2
  let c := c.setY (fourbeta - c.out.X)
  let gamma := gamma + gamma
  let gamma := gamma ^ 2
  let c := c.setY (alpha * c.out.Y)
  let gamma := gamma + gamma
  let c := c.setY (c.out.Y - gamma)
  c.out

variable (group : EcGroup F)

def ecGfpMontDbl (old : Option (EcJacobian F)) (p : EcJacobian F) : EcJacobian F :=
  let c := start old p
  if group.aIsMinus3 then
    let delta := c.inp.Z ^ 2
    let gamma := c.inp.Y ^ 2
    let beta := c.inp.X * gamma
    -- alpha = 3*(x-delta)*(x+delta)
    let ftmp := c.inp.X - delta
    let ftmp2 := c.inp.X + delta
    let tmptmp := ftmp2 + ftmp2
    let ftmp2 := ftmp2 + tmptmp
    let alpha := ftmp * ftmp2
    -- x' = alpha^2 - 8*beta
    let c := c.setX (alpha ^ 2)
    let fourbeta := beta + beta
    let fourbeta := fourbeta + fourbeta
    let tmptmp := fourbeta + fourbeta
    let c := c.setX (c.out.X - tmptmp)
    -- z' = (y + z)^2 - gamma - delta
    let delta := gamma + delta
    let ftmp := c.inp.Y + c.inp.Z
    let c := c.setZ (ftmp ^ 2)
    let c := c.setZ (c.out.Z - delta)
    -- y' = alpha*(4*beta - x') - 8*gamma^2
    let c := c.setY (fourbeta - c.out.X)
    let gamma := gamma + gamma
    let gamma := gamma ^ 2
    let c := c.setY (alpha * c.out.Y)
    let gamma := gamma + gamma
    let c := c.setY (c.out.Y - gamma)
    c.out
  else
    let xx := c.inp.X ^ 2
    let yy := c.inp.Y ^ 2
    let yyyy := yy ^ 2
    let zz := c.inp.Z ^ 2
    -- s = 2*((x_in + yy)^2 - xx - yyyy)
    let s := c.inp.X + yy
    let s := s ^ 2
    let s := s - xx
    let s := s - yyyy
    let s := s + s
    -- m = 3*xx + a*zz^2
    let m := zz ^ 2
    let m := group.a * m
    let m := m + xx
    let m := m + xx
    let m := m + xx
    -- x_out = m^2 - 2*s
    let c := c.setX (m ^ 2)
    let c := c.setX (c.out.X - s)
    let c := c.setX (c.out.X - s)
    -- z_out = (y_in + z_in)^2 - yy - zz
    let c := c.setZ (c.inp.Y + c.inp.Z)
    let c := c.setZ (c.out.Z ^ 2)
    let c := c.setZ (c.out.Z - yy)
    let c := c.setZ (c.out.Z - zz)
    -- y_out = m*(s-x_out) - 8*yyyy
    let yyyy := yyyy + yyyy
    let yyyy := yyyy + yyyy
    let yyyy := yyyy + yyyy
    let c := c.setY (s - c.out.X)
    let c := c.setY (c.out.Y * m)
    let c := c.setY (c.out.Y - yyyy)
    c.out

section

variable [DecidableEq F]

/-- The end of an addition: the sum is replaced by an argument if the other one is at infinity.  A
    write to the result may be one to the first argument. -/
def selectSum (old : Option (EcJacobian F)) (p q sum : EcJacobian F) : EcJacobian F :=
  let c := start old p
  let z1nz := c.inp.Z ≠ 0
  let z2nz := q.Z ≠ 0
  let xOut := if z1nz then sum.X else q.X
  let yOut := if z1nz then sum.Y else q.Y
  let zOut := if z1nz then sum.Z else q.Z
  let c := c.setX (if z2nz then xOut else c.inp.X)
  let c := c.setY (if z2nz then yOut else c.inp.Y)
  let c := c.setZ (if z2nz then zOut else c.inp.Z)
  c.out

/-- The statements of the two additions from the differences `h` and `r` on. -/
def sumFrom (u1 s1 h r twoZ1Z2 : F) : EcJacobian F :=
  let zOut := h * twoZ1Z2
  -- I = (2h)**2, J = h * I, V = U1 * I
  let i := h + h
  let i := i ^ 2
  let j := h * i
  let v := u1 * i
  -- x_out = r**2 - J - 2V
  let xOut := r ^ 2
  let xOut := xOut - j
  let xOut := xOut - v
  let xOut := xOut - v
  -- y_out = r(V-x_out) - 2 * s1 * J
  let yOut := v - xOut
  let yOut := yOut * r
  let s1j := s1 * j
  let yOut := yOut - s1j
  let yOut := yOut - s1j
  ⟨xOut, yOut, zOut⟩

def ecNistpPointAdd (old : Option (EcJacobian F)) (p : EcJacobian F) (mixed : Bool)
    (q : EcJacobian F) : EcJacobian F :=
  let z1z1 := p.Z ^ 2
  let (u1, s1, twoZ1Z2) :=
    if !mixed then
      let z2z2 := q.Z ^ 2
      let u1 := p.X * z2z2
      let twoZ1Z2 := p.Z + q.Z
      let twoZ1Z2 := twoZ1Z2 ^ 2
      let twoZ1Z2 := twoZ1Z2 - z1z1
      let twoZ1Z2 := twoZ1Z2 - z2z2
      let s1 := q.Z * z2z2
      let s1 := s1 * p.Y
      (u1, s1, twoZ1Z2)
    else (p.X, p.Y, p.Z + p.Z)
  let u2 := q.X * z1z1
  let h := u2 - u1
  let z1z1z1 := p.Z * z1z1
  let s2 := q.Y * z1z1z1
  let r := s2 - s1
  let r := r + r
  if h = 0 ∧ r = 0 ∧ p.Z ≠ 0 ∧ q.Z ≠ 0 then ecNistpPointDouble old p
  else selectSum old p q (sumFrom u1 s1 h r twoZ1Z2)

/-- `ec_GFp_mont_add`; `b` is missing if it is the pointer `a`. -/
def ecGfpMontAdd (group : EcGroup F) (old : Option (EcJacobian F)) (a : EcJacobian F)
    (b : Option (EcJacobian F)) : EcJacobian F :=
  match b with
  | none => ecGfpMontDbl group old a
  | some b =>
    let z1z1 := a.Z ^ 2
    let z2z2 := b.Z ^ 2
    let u1 := a.X * z2z2
    let twoZ1Z2 := a.Z + b.Z
    let twoZ1Z2 := twoZ1Z2 ^ 2
    let twoZ1Z2 := twoZ1Z2 - z1z1
    let twoZ1Z2 := twoZ1Z2 - z2z2
    let s1 := b.Z * z2z2
    let s1 := s1 * a.Y
    let u2 := b.X * z1z1
    let h := u2 - u1
    let z1z1z1 := a.Z * z1z1
    let s2 := b.Y * z1z1z1
    let r := s2 - s1
    let r := r + r
    if h = 0 ∧ r = 0 ∧ a.Z ≠ 0 ∧ b.Z ≠ 0 then ecGfpMontDbl group old a
    else selectSum old a b (sumFrom u1 s1 h r twoZ1Z2)

end

/-! ### The group law -/

def EcGroup.curve : WeierstrassCurve F := ⟨0, 0, 0, group.a, group.b⟩

abbrev EcGroup.Point (group : EcGroup F) : Type := group.curve.toAffine.Point

def EcGroup.Represents (group : EcGroup F) (p : EcJacobian F) (P : group.Point) : Prop :=
  (p.Z = 0 ∧ P = 0) ∨
    (p.Z ≠ 0 ∧ ∃ h : group.curve.toAffine.Nonsingular (p.X / p.Z ^ 2) (p.Y / p.Z ^ 3),
      P = .some _ _ h)

section

variable {group : EcGroup F}

theorem represents_zero {p : EcJacobian F} (hz : p.Z = 0) : group.Represents p 0 :=
  Or.inl ⟨hz, rfl⟩

theorem represents_some {p : EcJacobian F} {x y : F} {h : group.curve.toAffine.Nonsingular x y}
    (hz : p.Z ≠ 0) (hx : p.X = x * p.Z ^ 2) (hy : p.Y = y * p.Z ^ 3) :
    group.Represents p (.some x y h) := by
  have hx' : p.X / p.Z ^ 2 = x := by
    rw [hx]
    field_simp
  have hy' : p.Y / p.Z ^ 3 = y := by
    rw [hy]
    field_simp
  refine Or.inr ⟨hz, ?_⟩
  rw [hx', hy']
  exact ⟨h, rfl⟩

theorem negY_eq (x y : F) : group.curve.toAffine.negY x y = -y := by
  simp [Affine.negY, EcGroup.curve]

theorem addX_eq (x₁ x₂ slope : F) :
    group.curve.toAffine.addX x₁ x₂ slope = slope ^ 2 - x₁ - x₂ := by
  simp [Affine.addX, EcGroup.curve]

theorem addY_eq (x₁ x₂ y₁ slope : F) : group.curve.toAffine.addY x₁ x₂ y₁ slope =
    -(slope * (slope ^ 2 - x₁ - x₂ - x₁) + y₁) := by
  rw [Affine.addY, negY_eq, Affine.negAddY, addX_eq]

end

/-- The doubled point, in terms of the coefficient `a`. -/
def dblOf (a : F) (p : EcJacobian F) : EcJacobian F :=
  let m := 3 * p.X ^ 2 + a * p.Z ^ 4
  let x := m ^ 2 - 8 * p.X * p.Y ^ 2
  ⟨x, m * (4 * p.X * p.Y ^ 2 - x) - 8 * p.Y ^ 4, 2 * p.Y * p.Z⟩

/-- All ways to double a point give the same coordinates, also over the argument. -/
theorem ecGfpMontDbl_eq (group : EcGroup F) (old : Option (EcJacobian F)) (p : EcJacobian F) :
    ecGfpMontDbl group old p = dblOf group.a p := by
  unfold ecGfpMontDbl
  by_cases ha : group.aIsMinus3 = true
  · rw [if_pos ha, group.aIsMinus3_iff.mp ha]
    cases old <;>
    · simp only [start, setX, setY, setZ, dblOf, if_true, if_false,
        Bool.false_eq_true, EcJacobian.mk.injEq]
      refine ⟨?_, ?_, ?_⟩ <;> ring
  · rw [if_neg ha]
    cases old <;>
    · simp only [start, setX, setY, setZ, dblOf, if_true, if_false,
        Bool.false_eq_true, EcJacobian.mk.injEq]
      refine ⟨?_, ?_, ?_⟩ <;> ring

theorem ecNistpPointDouble_eq : ecNistpPointDouble old p = dblOf (-3) p := by
  unfold ecNistpPointDouble
  cases old <;>
  · simp only [start, setX, setY, setZ, dblOf, if_true, if_false,
      Bool.false_eq_true, EcJacobian.mk.injEq]
    refine ⟨?_, ?_, ?_⟩ <;> ring

variable [DecidableEq F]

theorem selectSum_eq (p q sum : EcJacobian F) :
    selectSum old p q sum = if q.Z = 0 then p else if p.Z = 0 then q else sum := by
  unfold selectSum
  by_cases hq : q.Z = 0
  · cases old <;>
    simp [start, setX, setY, setZ, hq]
  · by_cases hp : p.Z = 0
    · cases old <;>
      simp [start, setX, setY, setZ, hq, hp]
    · cases old <;>
      simp [start, setX, setY, setZ, hq, hp]

/-- The sum of two points that are not at infinity and have different `x`. -/
def sumOf (p q : EcJacobian F) : EcJacobian F :=
  sumFrom (p.X * q.Z ^ 2) (p.Y * q.Z ^ 3) (q.X * p.Z ^ 2 - p.X * q.Z ^ 2)
    (2 * (q.Y * p.Z ^ 3 - p.Y * q.Z ^ 3)) (2 * p.Z * q.Z)

def addOf (a : F) (p q : EcJacobian F) : EcJacobian F :=
  if q.X * p.Z ^ 2 - p.X * q.Z ^ 2 = 0 ∧ 2 * (q.Y * p.Z ^ 3 - p.Y * q.Z ^ 3) = 0 ∧
      p.Z ≠ 0 ∧ q.Z ≠ 0 then dblOf a p
  else if q.Z = 0 then p else if p.Z = 0 then q else sumOf p q

theorem ecGfpMontAdd_eq (group : EcGroup F) (old : Option (EcJacobian F)) (p q : EcJacobian F) :
    ecGfpMontAdd group old p (some q) = addOf group.a p q := by
  have hz : (p.Z + q.Z) ^ 2 - p.Z ^ 2 - q.Z ^ 2 = 2 * p.Z * q.Z := by ring
  have hs : q.Z * q.Z ^ 2 * p.Y = p.Y * q.Z ^ 3 := by ring
  have hr : q.Y * (p.Z * p.Z ^ 2) - p.Y * q.Z ^ 3 + (q.Y * (p.Z * p.Z ^ 2) - p.Y * q.Z ^ 3) =
      2 * (q.Y * p.Z ^ 3 - p.Y * q.Z ^ 3) := by ring
  unfold ecGfpMontAdd addOf sumOf
  simp [ecGfpMontDbl_eq, selectSum_eq, hz, hs, hr]

theorem ecNistpPointAdd_eq (p q : EcJacobian F) (mixed : Bool)
    (hmixed : mixed = true → q.Z = 0 ∨ q.Z = 1) :
    ecNistpPointAdd old p mixed q = addOf (-3) p q := by
  have hz : (p.Z + q.Z) ^ 2 - p.Z ^ 2 - q.Z ^ 2 = 2 * p.Z * q.Z := by ring
  have hs : q.Z * q.Z ^ 2 * p.Y = p.Y * q.Z ^ 3 := by ring
  unfold ecNistpPointAdd addOf sumOf
  cases mixed with
  | false =>
    have hr : q.Y * (p.Z * p.Z ^ 2) - p.Y * q.Z ^ 3 + (q.Y * (p.Z * p.Z ^ 2) - p.Y * q.Z ^ 3) =
        2 * (q.Y * p.Z ^ 3 - p.Y * q.Z ^ 3) := by ring
    simp [ecNistpPointDouble_eq, selectSum_eq, hz, hs, hr]
  | true =>
    rcases hmixed rfl with hzero | hone
    · simp [selectSum_eq, hzero]
    · have hr : q.Y * (p.Z * p.Z ^ 2) - p.Y + (q.Y * (p.Z * p.Z ^ 2) - p.Y) =
          2 * (q.Y * p.Z ^ 3 - p.Y) := by ring
      have htwo : p.Z + p.Z = 2 * p.Z := by ring
      simp [ecNistpPointDouble_eq, selectSum_eq, hone, hr, htwo]

/-! ### The coordinates of sums -/

section

variable {group : EcGroup F}

/-- **Doubling.** -/
theorem dblOf_represents (htwo : (2 : F) ≠ 0) {p : EcJacobian F} {P : group.Point}
    (h : group.Represents p P) : group.Represents (dblOf group.a p) (P + P) := by
  rcases h with ⟨hz, rfl⟩ | ⟨hz, hns, rfl⟩
  · rw [add_zero]
    refine represents_zero ?_
    simp [dblOf, hz]
  · by_cases hY : p.Y = 0
    · have hneg : p.Y / p.Z ^ 3 = group.curve.toAffine.negY (p.X / p.Z ^ 2) (p.Y / p.Z ^ 3) := by
        rw [negY_eq, hY, zero_div, neg_zero]
      rw [Affine.Point.add_self_of_Y_eq hneg]
      refine represents_zero ?_
      simp [dblOf, hY]
    · have hy : p.Y / p.Z ^ 3 ≠ 0 := div_ne_zero hY (pow_ne_zero 3 hz)
      have hne : p.Y / p.Z ^ 3 ≠ group.curve.toAffine.negY (p.X / p.Z ^ 2) (p.Y / p.Z ^ 3) := by
        rw [negY_eq]
        intro heq
        have hsum : 2 * (p.Y / p.Z ^ 3) = 0 := by linear_combination heq
        exact (mul_ne_zero htwo hy) hsum
      rw [Affine.Point.add_self_of_Y_ne hne]
      have hslope : group.curve.toAffine.slope (p.X / p.Z ^ 2) (p.X / p.Z ^ 2) (p.Y / p.Z ^ 3)
          (p.Y / p.Z ^ 3) = (3 * p.X ^ 2 + group.a * p.Z ^ 4) / (2 * p.Y * p.Z) := by
        have hden : p.Y / p.Z ^ 3 - -(p.Y / p.Z ^ 3) = 2 * p.Y / p.Z ^ 3 := by ring
        rw [Affine.slope_of_Y_ne rfl hne, negY_eq, hden]
        simp only [EcGroup.curve]
        field_simp
        ring
      have hZ : 2 * p.Y * p.Z ≠ 0 := mul_ne_zero (mul_ne_zero htwo hY) hz
      refine represents_some hZ ?_ ?_
      · rw [hslope, addX_eq]
        simp only [dblOf]
        field_simp
        ring
      · rw [hslope, addY_eq]
        simp only [dblOf]
        field_simp
        ring

/-- Addition of points with different `x`. -/
theorem sumOf_represents (htwo : (2 : F) ≠ 0) {p q : EcJacobian F} (hp : p.Z ≠ 0) (hq : q.Z ≠ 0)
    (hne : q.X * p.Z ^ 2 - p.X * q.Z ^ 2 ≠ 0)
    (hP : group.curve.toAffine.Nonsingular (p.X / p.Z ^ 2) (p.Y / p.Z ^ 3))
    (hQ : group.curve.toAffine.Nonsingular (q.X / q.Z ^ 2) (q.Y / q.Z ^ 3)) :
    group.Represents (sumOf p q) (Affine.Point.some _ _ hP + Affine.Point.some _ _ hQ) := by
  have hx : p.X / p.Z ^ 2 ≠ q.X / q.Z ^ 2 := by
    intro heq
    rw [div_eq_div_iff (pow_ne_zero 2 hp) (pow_ne_zero 2 hq)] at heq
    exact hne (by linear_combination -heq)
  have hslope : group.curve.toAffine.slope (p.X / p.Z ^ 2) (q.X / q.Z ^ 2) (p.Y / p.Z ^ 3)
      (q.Y / q.Z ^ 3) = (q.Y * p.Z ^ 3 - p.Y * q.Z ^ 3) /
        (p.Z * q.Z * (q.X * p.Z ^ 2 - p.X * q.Z ^ 2)) := by
    rw [Affine.slope_of_X_ne hx, div_eq_div_iff (sub_ne_zero.mpr hx)
      (mul_ne_zero (mul_ne_zero hp hq) hne)]
    field_simp
    ring
  rw [Affine.Point.add_of_X_ne hx]
  generalize hh : q.X * p.Z ^ 2 - p.X * q.Z ^ 2 = h at hne hslope
  have hqX : q.X = (h + p.X * q.Z ^ 2) / p.Z ^ 2 := by
    rw [← hh]
    field_simp
    ring
  have hZ : h * (2 * p.Z * q.Z) ≠ 0 := mul_ne_zero hne (mul_ne_zero (mul_ne_zero htwo hp) hq)
  refine represents_some ?_ ?_ ?_
  · simp only [sumOf, sumFrom, hh]
    exact hZ
  · rw [hslope, addX_eq]
    simp only [sumOf, sumFrom, hh]
    rw [hqX]
    field_simp
    ring
  · rw [hslope, addY_eq]
    simp only [sumOf, sumFrom, hh]
    rw [hqX]
    field_simp
    ring

/-- **Addition.** -/
theorem addOf_represents (htwo : (2 : F) ≠ 0) {p q : EcJacobian F} {P Q : group.Point}
    (hP : group.Represents p P) (hQ : group.Represents q Q) :
    group.Represents (addOf group.a p q) (P + Q) := by
  unfold addOf
  rcases hQ with ⟨hq, rfl⟩ | ⟨hq, hnsQ, rfl⟩
  · rw [if_neg (fun h => h.2.2.2 hq), if_pos hq, add_zero]
    exact hP
  rcases hP with ⟨hp, rfl⟩ | ⟨hp, hnsP, rfl⟩
  · rw [if_neg (fun h => h.2.2.1 hp), if_neg hq, if_pos hp, zero_add]
    exact Or.inr ⟨hq, hnsQ, rfl⟩
  by_cases hh : q.X * p.Z ^ 2 - p.X * q.Z ^ 2 = 0
  swap
  · rw [if_neg (fun h => hh h.1), if_neg hq, if_neg hp]
    exact sumOf_represents htwo hp hq hh hnsP hnsQ
  have hx : p.X / p.Z ^ 2 = q.X / q.Z ^ 2 := by
    rw [div_eq_div_iff (pow_ne_zero 2 hp) (pow_ne_zero 2 hq)]
    linear_combination -hh
  by_cases hr : 2 * (q.Y * p.Z ^ 3 - p.Y * q.Z ^ 3) = 0
  · have hy : p.Y / p.Z ^ 3 = q.Y / q.Z ^ 3 := by
      rw [div_eq_div_iff (pow_ne_zero 3 hp) (pow_ne_zero 3 hq)]
      linear_combination -(mul_eq_zero.mp hr).resolve_left htwo
    rw [if_pos ⟨hh, hr, hp, hq⟩]
    have hsame : Affine.Point.some _ _ hnsQ = Affine.Point.some _ _ hnsP := by
      simp [hx, hy]
    rw [hsame]
    exact dblOf_represents htwo (Or.inr ⟨hp, hnsP, rfl⟩)
  · have hy : p.Y / p.Z ^ 3 ≠ q.Y / q.Z ^ 3 := by
      rw [Ne, div_eq_div_iff (pow_ne_zero 3 hp) (pow_ne_zero 3 hq)]
      intro heq
      exact hr (by linear_combination -2 * heq)
    rw [if_neg (fun h => hr h.2.1), if_neg hq, if_neg hp,
      Affine.Point.add_of_Y_eq hx ((Affine.Y_eq_of_X_eq hnsP.1 hnsQ.1 hx).resolve_left hy)]
    refine represents_zero ?_
    simp [sumOf, sumFrom, hh]

def repeatedSum (group : EcGroup F) (point : EcJacobian F) : Nat → EcJacobian F
  | 0 => ⟨0, 0, 0⟩
  | k + 1 => ecGfpMontAdd group none (repeatedSum group point k) (some point)

theorem repeatedSum_represents (htwo : (2 : F) ≠ 0) {point : EcJacobian F} {P : group.Point}
    (h : group.Represents point P) (k : Nat) :
    group.Represents (repeatedSum group point k) (k • P) := by
  induction k with
  | zero =>
    rw [zero_nsmul]
    exact represents_zero rfl
  | succ k ih =>
    unfold repeatedSum
    rw [ecGfpMontAdd_eq, succ_nsmul]
    exact addOf_represents htwo ih h

end

theorem two_ne_zero_zmod {p : Nat} (hp : 3 < p) : (2 : ZMod p) ≠ 0 := by
  intro htwo
  have hdvd : p ∣ 2 := (ZMod.natCast_eq_zero_iff 2 p).mp htwo
  have hle := Nat.le_of_dvd (by decide) hdvd
  omega

/-- **The point operations are the group law**, over the prime fields of more than three elements
    and for all coordinates of the points, whether or not the result is written over the first
    argument.  The functions for the coefficient `-3` are correct on the curves with it, and the
    mixed addition for second points with `Z` zero or one. -/
theorem point_operations_group_law {p : Nat} [Fact p.Prime] (hp : 3 < p)
    (group : EcGroup (ZMod p)) (old : Option (EcJacobian (ZMod p)))
    {j k : EcJacobian (ZMod p)} {P Q : group.Point} (hP : group.Represents j P)
    (hQ : group.Represents k Q) : group.Represents (ecGfpMontDbl group old j) (2 • P) ∧
    group.Represents (ecGfpMontAdd group old j none) (2 • P) ∧
    group.Represents (ecGfpMontAdd group old j (some k)) (P + Q) ∧ (group.a = -3 →
      group.Represents (ecNistpPointDouble old j) (2 • P) ∧
      group.Represents (ecNistpPointAdd old j false k) (P + Q) ∧
      (k.Z = 0 ∨ k.Z = 1 → group.Represents (ecNistpPointAdd old j true k) (P + Q))) := by
  have htwo : (2 : ZMod p) ≠ 0 := two_ne_zero_zmod hp
  have hdbl := dblOf_represents htwo hP
  have hadd := addOf_represents htwo hP hQ
  rw [← two_nsmul] at hdbl
  refine ⟨?_, ?_, ?_, ?_⟩
  · rw [ecGfpMontDbl_eq]
    exact hdbl
  · change group.Represents (ecGfpMontDbl group old j) (2 • P)
    rw [ecGfpMontDbl_eq]
    exact hdbl
  · rw [ecGfpMontAdd_eq]
    exact hadd
  · intro ha
    rw [ha] at hdbl hadd
    refine ⟨?_, ?_, ?_⟩
    · rw [ecNistpPointDouble_eq]
      exact hdbl
    · rw [ecNistpPointAdd_eq old j k false nofun]
      exact hadd
    · intro hz
      rw [ecNistpPointAdd_eq old j k true (fun _ => hz)]
      exact hadd

instance factPrimeFive : Fact (Nat.Prime 5) := ⟨by decide⟩

/-- The curve `y ^ 2 = x ^ 3 - 3 * x + 1` over the field of five elements. -/
def smallGroup : EcGroup (ZMod 5) := ⟨-3, 1, true, by decide⟩

theorem smallGroup_nonsingular :
    smallGroup.curve.toAffine.Nonsingular ((0 : ZMod 5) / 1 ^ 2) ((1 : ZMod 5) / 1 ^ 3) := by
  rw [Affine.nonsingular_iff, Affine.equation_iff]
  simp only [EcGroup.curve, smallGroup, one_pow, div_one]
  decide

theorem point_operations_small : ∃ P : smallGroup.Point, smallGroup.Represents ⟨0, 1, 1⟩ P ∧ P ≠ 0 ∧
      smallGroup.Represents (ecNistpPointAdd none ⟨0, 1, 1⟩ true ⟨0, 1, 1⟩) (P + P) := by
  have hP : smallGroup.Represents ⟨0, 1, 1⟩ (.some _ _ smallGroup_nonsingular) :=
    Or.inr ⟨by decide, smallGroup_nonsingular, rfl⟩
  refine ⟨.some _ _ smallGroup_nonsingular, hP, Affine.Point.some_ne_zero _, ?_⟩
  exact ((point_operations_group_law (by decide) smallGroup none hP hP).2.2.2 rfl).2.2 (Or.inr rfl)

end AwsLc
