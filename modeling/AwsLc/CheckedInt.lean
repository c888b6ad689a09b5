import Mathlib.Algebra.Order.Ring.Int
import Mathlib.Tactic.LinearCombination
import Mathlib.Tactic.Ring

/-!
# Signed integers with undefined overflow

Expressions of a signed integer type of C.  `Tracked` is the value of an expression together with
whether all the values on the way to it fit in the type: where one does not, the behaviour is
undefined.  Division truncates.
-/

namespace AwsLc.Checked

def Fits (bits : Nat) (x : Int) : Prop := -(2 : Int) ^ (bits - 1) ≤ x ∧ x < (2 : Int) ^ (bits - 1)

instance (bits : Nat) (x : Int) : Decidable (Fits bits x) := inferInstanceAs (Decidable (_ ∧ _))

structure Tracked (bits : Nat) where
  value : Int
  exact : Bool

/-- Why a computation did not end with a value: an operation overflowed, or it reported failure. -/
inductive Fault where
  | overflow
  | failed
deriving DecidableEq, Repr

namespace Tracked

variable {bits : Nat}

def of (x : Int) : Tracked bits := ⟨x, Fits bits x⟩

instance : Coe Int (Tracked bits) := ⟨of⟩

instance (n : Nat) : OfNat (Tracked bits) n := ⟨of n⟩

def op (f : Int → Int → Int) (a b : Tracked bits) : Tracked bits :=
  ⟨f a.value b.value, a.exact && b.exact && decide (Fits bits (f a.value b.value))⟩

instance : Add (Tracked bits) := ⟨op (· + ·)⟩

instance : Sub (Tracked bits) := ⟨op (· - ·)⟩

instance : Mul (Tracked bits) := ⟨op (· * ·)⟩

/-- Division by something other than zero. -/
instance : Div (Tracked bits) :=
  ⟨fun a b => ⟨a.value.tdiv b.value, (op Int.tdiv a b).exact && b.value != 0⟩⟩

instance : Mod (Tracked bits) :=
  ⟨fun a b => ⟨a.value.tmod b.value, (op Int.tdiv a b).exact && b.value != 0⟩⟩

def eval (x : Tracked bits) : Except Fault Int :=
  if x.exact then .ok x.value else .error .overflow

theorem eval_of_exact {x : Tracked bits} (h : x.exact = true) : x.eval = .ok x.value := if_pos h

@[simp] theorem value_of (x : Int) : (of x : Tracked bits).value = x := rfl

@[simp] theorem value_ofNat (n : Nat) : (no_index (OfNat.ofNat n) : Tracked bits).value = n := rfl

@[simp] theorem value_add (a b : Tracked bits) : (a + b).value = a.value + b.value := rfl

@[simp] theorem value_sub (a b : Tracked bits) : (a - b).value = a.value - b.value := rfl

@[simp] theorem value_mul (a b : Tracked bits) : (a * b).value = a.value * b.value := rfl

@[simp] theorem value_div (a b : Tracked bits) : (a / b).value = a.value.tdiv b.value := rfl

@[simp] theorem value_mod (a b : Tracked bits) : (a % b).value = a.value.tmod b.value := rfl

@[simp] theorem exact_of (x : Int) : (of x : Tracked bits).exact = true ↔ Fits bits x :=
  decide_eq_true_iff

@[simp] theorem exact_ofNat (n : Nat) :
    (no_index (OfNat.ofNat n) : Tracked bits).exact = true ↔ Fits bits n := decide_eq_true_iff

theorem exact_op (f : Int → Int → Int) (a b : Tracked bits) : (op f a b).exact = true ↔
      a.exact = true ∧ b.exact = true ∧ Fits bits (f a.value b.value) := by
  unfold op
  rw [Bool.and_eq_true, Bool.and_eq_true, decide_eq_true_iff, and_assoc]

@[simp] theorem exact_add (a b : Tracked bits) : (a + b).exact = true ↔
    a.exact = true ∧ b.exact = true ∧ Fits bits (a.value + b.value) := exact_op _ a b

@[simp] theorem exact_sub (a b : Tracked bits) : (a - b).exact = true ↔
    a.exact = true ∧ b.exact = true ∧ Fits bits (a.value - b.value) := exact_op _ a b

@[simp] theorem exact_mul (a b : Tracked bits) : (a * b).exact = true ↔
    a.exact = true ∧ b.exact = true ∧ Fits bits (a.value * b.value) := exact_op _ a b

theorem exact_tdiv_op (a b : Tracked bits) : ((op Int.tdiv a b).exact && b.value != 0) = true ↔
      a.exact = true ∧ b.exact = true ∧ Fits bits (a.value.tdiv b.value) ∧ b.value ≠ 0 := by
  rw [Bool.and_eq_true, exact_op, bne_iff_ne, and_assoc, and_assoc]

@[simp] theorem exact_div (a b : Tracked bits) : (a / b).exact = true ↔
    a.exact = true ∧ b.exact = true ∧ Fits bits (a.value.tdiv b.value) ∧ b.value ≠ 0 :=
  exact_tdiv_op a b

@[simp] theorem exact_mod (a b : Tracked bits) : (a % b).exact = true ↔
    a.exact = true ∧ b.exact = true ∧ Fits bits (a.value.tdiv b.value) ∧ b.value ≠ 0 :=
  exact_tdiv_op a b

end Tracked

/-- A computation goes on with the value of an expression. -/
theorem bind_of_ok {α β : Type} {x : Except Fault α} {value : α} {next : α → Except Fault β}
    {y : Except Fault β} (h : x = .ok value) (hnext : next value = y) : x.bind next = y := by
  rw [h]
  exact hnext

/-- Truncating division of what is not negative is division with remainder. -/
theorem tdiv_of_nonneg {a : Int} (b : Int) (h : 0 ≤ a) : a.tdiv b = a / b :=
  Int.tdiv_eq_ediv_of_nonneg h

/-- Truncation rounds down, or one higher with a negative rest. -/
theorem tdiv_tmod_cases {a b : Int} (hb : 0 < b) : (a.tdiv b = a / b ∧ a.tmod b = a % b) ∨
      (a.tdiv b = a / b + 1 ∧ a.tmod b = a % b - b ∧ a < 0) := by
  rw [Int.tdiv_eq_ediv, Int.tmod_eq_emod]
  by_cases h : 0 ≤ a ∨ b ∣ a
  · left
    rw [if_pos h, if_pos h]
    omega
  · right
    rw [if_neg h, if_neg h, Int.sign_eq_one_of_pos hb]
    omega

theorem tdiv_round_down {a b : Int} (ha : a ≤ 0) (hb : 0 < b) : (a - (b - 1)).tdiv b = a / b := by
  have hneg : a - (b - 1) = -(-a + (b - 1)) := by ring
  have hnonneg : 0 ≤ -a + (b - 1) := by omega
  rw [hneg, Int.neg_tdiv, tdiv_of_nonneg b hnonneg]
  have hdiv := Int.mul_ediv_add_emod a b
  have hrem := Int.emod_nonneg a hb.ne'
  have hlt := Int.emod_lt_of_pos a hb
  have hsum : b - 1 - a % b + b * -(a / b) = -a + (b - 1) := by linear_combination -hdiv
  have hquotient := ((Int.ediv_emod_unique hb).mpr ⟨hsum, by omega, by omega⟩).1
  rw [hquotient, neg_neg]

end AwsLc.Checked
