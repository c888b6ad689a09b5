import Mathlib.Data.List.Basic

/-!
# Sets of indices packed into bytes

A byte string used as a bit mask: index `k` is bit `k % 8` of byte `k / 8`, and bytes past the end
read as zero.
-/

namespace AwsLc.PackedBits

def byteBit (byte : UInt8) (index : Nat) : Bool := byte.toBitVec.getLsbD index

variable (mask : List UInt8)

/-- Whether `index` is a member of the packed set. -/
def member (index : Nat) : Bool :=
  byteBit (mask.getD (index / 8) 0) (index % 8)

/-- `mask[position] |= bits`. -/
def orByte (position : Nat) (bits : UInt8) : List UInt8 :=
  mask.set position (mask.getD position 0 ||| bits)

/-- `mask[i] = 0xff` for `count` positions from `first` on. -/
def fillBytes (first count : Nat) : List UInt8 :=
  (List.range' first count).foldl (fun mask position => mask.set position 0xff) mask

theorem byte_ext {left right : UInt8}
    (h : ∀ index < 8, byteBit left index = byteBit right index) : left = right := by
  apply UInt8.toBitVec_inj.mp
  exact BitVec.eq_of_getLsbD_eq fun index hindex => h index hindex

@[simp] theorem byteBit_or (left right : UInt8) (index : Nat) :
    byteBit (left ||| right) index = (byteBit left index || byteBit right index) := by
  simp [byteBit]

@[simp] theorem byteBit_zero (index : Nat) : byteBit 0 index = false := by
  simp [byteBit]

theorem byteBit_full {index : Nat} (hindex : index < 8) : byteBit 0xff index = true := by
  have hall : (0xff : UInt8).toBitVec = BitVec.allOnes 8 := by decide
  rw [byteBit, hall, BitVec.getLsbD_allOnes, decide_eq_true hindex]

/-- A byte is `0xff` exactly when all its bits are set. -/
theorem byte_eq_full_iff (byte : UInt8) : byte = 0xff ↔ ∀ index < 8, byteBit byte index = true := by
  constructor
  · rintro rfl index hindex
    exact byteBit_full hindex
  · intro h
    exact byte_ext fun index hindex => (h index hindex).trans (byteBit_full hindex).symm

@[simp] theorem member_replicate_zero (length index : Nat) :
    member (List.replicate length 0) index = false := by
  have hbyte : (List.replicate length (0 : UInt8)).getD (index / 8) 0 = 0 := by
    simp only [List.getD_eq_getElem?_getD, List.getElem?_replicate]
    split <;> rfl
  rw [member, hbyte, byteBit_zero]

@[simp] theorem length_orByte (position : Nat) (bits : UInt8) :
    (orByte mask position bits).length = mask.length := by
  simp [orByte]

@[simp] theorem length_fillBytes (first count : Nat) :
    (fillBytes mask first count).length = mask.length := by
  unfold fillBytes
  induction count generalizing mask first with
  | zero => rfl
  | succ count ih => rw [List.range'_succ, List.foldl_cons, ih, List.length_set]

variable {mask : List UInt8}

private theorem getD_set {position : Nat} (hposition : position < mask.length) (byte : UInt8)
    (other : Nat) : (mask.set position byte).getD other 0 =
      if position = other then byte else mask.getD other 0 := by
  simp only [List.getD_eq_getElem?_getD, List.getElem?_set]
  by_cases heq : position = other
  · subst heq
    simp [hposition]
  · simp [heq]

theorem member_orByte {position : Nat} (hposition : position < mask.length) (bits : UInt8)
    (index : Nat) : member (orByte mask position bits) index =
      (member mask index || (decide (position = index / 8) && byteBit bits (index % 8))) := by
  unfold member orByte
  rw [getD_set hposition]
  by_cases heq : position = index / 8
  · simp [heq]
  · simp [heq]

private theorem member_set_full {position : Nat} (hposition : position < mask.length) (index : Nat)
    : member (mask.set position 0xff) index =
      (member mask index || decide (position = index / 8)) := by
  unfold member
  rw [getD_set hposition]
  by_cases heq : position = index / 8
  · simp [heq, byteBit_full (Nat.mod_lt index (by decide))]
  · simp [heq]

theorem member_fillBytes {first count : Nat} (hbound : first + count ≤ mask.length) (index : Nat) :
    member (fillBytes mask first count) index =
      (member mask index || decide (first ≤ index / 8 ∧ index / 8 < first + count)) := by
  induction count generalizing mask first with
  | zero =>
      have hempty : ¬ (first ≤ index / 8 ∧ index / 8 < first + 0) := by omega
      simp only [hempty, decide_false, Bool.or_false]
      rfl
  | succ count ih =>
      have hfirst : first < mask.length := by omega
      have hstep : fillBytes mask first (count + 1) =
          fillBytes (mask.set first 0xff) (first + 1) count := by
        simp [fillBytes, List.range'_succ, List.foldl_cons]
      rw [hstep, ih (by rw [List.length_set]; omega), member_set_full hfirst, Bool.or_assoc,
        ← Bool.decide_or]
      congr 2
      apply propext
      omega

end AwsLc.PackedBits
