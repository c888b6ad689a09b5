import AwsLc.ByteString

/-!
# Words as masks

The constant-time helpers of `crypto/internal.h`.  A condition is a word whose bits are all set or
all clear, and a choice is made by combining words with such a mask.  The helpers compute on the top
bit; the lemmas say which condition the result is the mask of.
-/

namespace AwsLc

/-- A condition as a word, `CONSTTIME_TRUE_W` or `CONSTTIME_FALSE_W`. -/
def maskW (condition : Bool) : UInt64 := if condition then 0xffffffffffffffff else 0

variable (a : UInt64)

def constantTimeMsbW : UInt64 := (0 : UInt64) - (a >>> 63)

def constantTimeLtW (a b : UInt64) : UInt64 :=
  constantTimeMsbW (a ^^^ ((a ^^^ b) ||| ((a - b) ^^^ a)))

def constantTimeGeW (a b : UInt64) : UInt64 := ~~~constantTimeLtW a b

def constantTimeIsZeroW : UInt64 := constantTimeMsbW (~~~a &&& (a - 1))

def constantTimeEqW (a b : UInt64) : UInt64 := constantTimeIsZeroW (a ^^^ b)

def constantTimeSelectW (mask a b : UInt64) : UInt64 := (mask &&& a) ||| (~~~mask &&& b)

def topBit : Bool := a.toBitVec.msb

theorem topBit_eq : topBit a = decide (2 ^ 63 ≤ a.toNat) := BitVec.msb_eq_decide _

theorem topBit_and (a b : UInt64) : topBit (a &&& b) = (topBit a && topBit b) := BitVec.msb_and

theorem topBit_or (a b : UInt64) : topBit (a ||| b) = (topBit a || topBit b) := BitVec.msb_or

theorem topBit_xor (a b : UInt64) : topBit (a ^^^ b) = (topBit a ^^ topBit b) := BitVec.msb_xor

theorem topBit_not : topBit (~~~a) = !topBit a := by
  simp [topBit]

theorem constantTimeMsbW_eq : constantTimeMsbW a = maskW (topBit a) := by
  have hlt := a.toNat_lt
  have hshift : a >>> 63 = if topBit a then 1 else 0 := by
    rw [← UInt64.toNat_inj, UInt64.toNat_shiftRight, topBit_eq, Nat.shiftRight_eq_div_pow]
    by_cases htop : 2 ^ 63 ≤ a.toNat
    · simp only [htop, decide_true, if_true]
      change a.toNat / 2 ^ 63 = 1
      omega
    · simp only [htop, decide_false, Bool.false_eq_true, if_false]
      change a.toNat / 2 ^ 63 = 0
      omega
  rw [constantTimeMsbW, hshift]
  cases topBit a <;> rfl

/-- The top bit of a difference decides the comparison of words with the same top bit; of other
    words, the one with the top bit is larger. -/
theorem constantTimeLtW_eq (a b : UInt64) : constantTimeLtW a b = maskW (decide (a < b)) := by
  have ha := a.toNat_lt
  have hsub := UInt64.toNat_sub a b
  rw [constantTimeLtW, constantTimeMsbW_eq, topBit_xor, topBit_or, topBit_xor, topBit_xor,
    topBit_eq a, topBit_eq b, topBit_eq (a - b)]
  congr 1
  by_cases htopA : 2 ^ 63 ≤ a.toNat <;> by_cases htopB : 2 ^ 63 ≤ b.toNat <;>
    by_cases htop : 2 ^ 63 ≤ (a - b).toNat <;>
    simp only [htopA, htopB, htop, decide_true, decide_false, UInt64.lt_iff_toNat_lt, Bool.xor_true,
      Bool.xor_false, Bool.not_true, Bool.not_false, Bool.or_true, Bool.or_false,
      eq_comm (b := decide _), decide_eq_true_eq, decide_eq_false_iff_not] <;>
    omega

theorem maskW_not (condition : Bool) : ~~~maskW condition = maskW (!condition) := by
  cases condition <;> rfl

theorem maskW_and (a b : Bool) : maskW a &&& maskW b = maskW (a && b) := by
  cases a <;> cases b <;> rfl

theorem maskW_or (a b : Bool) : maskW a ||| maskW b = maskW (a || b) := by
  cases a <;> cases b <;> rfl

theorem constantTimeGeW_eq (a b : UInt64) : constantTimeGeW a b = maskW (decide (b ≤ a)) := by
  rw [constantTimeGeW, constantTimeLtW_eq, maskW_not, ← decide_not]
  simp

theorem constantTimeIsZeroW_eq : constantTimeIsZeroW a = maskW (a == 0) := by
  have hsub := UInt64.toNat_sub a 1
  rw [constantTimeIsZeroW, constantTimeMsbW_eq, topBit_and, topBit_not, topBit_eq, topBit_eq]
  congr 1
  rw [Bool.eq_iff_iff]
  simp only [Bool.and_eq_true, Bool.not_eq_true', decide_eq_false_iff_not, decide_eq_true_eq,
    beq_iff_eq, ← UInt64.toNat_inj]
  change _ ↔ a.toNat = 0
  have hone : (1 : UInt64).toNat = 1 := rfl
  omega

theorem constantTimeEqW_eq (a b : UInt64) : constantTimeEqW a b = maskW (a == b) := by
  rw [constantTimeEqW, constantTimeIsZeroW_eq]
  congr 1
  rw [Bool.eq_iff_iff]
  simp

theorem constantTimeSelectW_eq (condition : Bool) (a b : UInt64) :
    constantTimeSelectW (maskW condition) a b = if condition then a else b := by
  cases condition with
  | false => exact (congrArg₂ (· ||| ·) UInt64.zero_and UInt64.neg_one_and).trans UInt64.zero_or
  | true => exact (congrArg₂ (· ||| ·) UInt64.neg_one_and UInt64.zero_and).trans UInt64.or_zero

def cryptoMemcmp (a b : Bytes) : UInt8 := (xorBytes a b).foldl (· ||| ·) 0

theorem foldl_or_eq_zero_iff (bytes : Bytes) (start : UInt8) :
    bytes.foldl (· ||| ·) start = 0 ↔ start = 0 ∧ ∀ byte ∈ bytes, byte = 0 := by
  induction bytes generalizing start with
  | nil => simp
  | cons byte rest ih =>
    rw [List.foldl_cons, ih, UInt8.or_eq_zero_iff]
    simp [and_assoc]

theorem cryptoMemcmp_eq_zero_iff {a b : Bytes} (h : a.length = b.length) :
    cryptoMemcmp a b = 0 ↔ a = b := by
  rw [cryptoMemcmp, foldl_or_eq_zero_iff]
  induction a generalizing b with
  | nil =>
    rw [List.length_nil] at h
    simp [List.length_eq_zero_iff.mp h.symm]
  | cons byte rest ih =>
    cases b with
    | nil => simp at h
    | cons other others =>
      have hrest := ih (b := others) (by simpa using h)
      simp only [true_and] at hrest
      simp [hrest]

end AwsLc
