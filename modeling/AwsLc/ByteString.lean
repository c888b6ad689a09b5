import AwsLc.BigEndian
import AwsLc.XorBytes

/-!
# Byte strings: `CBS` and `CBB`

A `CBS` is the list of bytes it still has to read; a reader returns the value read and the rest, or
`none` where the source returns zero.  A fixed-width `CBB` writer is the list of bytes it appends,
or `none` where the value does not fit.
-/

namespace AwsLc

open AwsLc.BigEndian

abbrev Bytes := List UInt8

def INT_MAX : Nat := 2 ^ 31 - 1

def EVP_MAX_MD_SIZE : Nat := 64

def AES_BLOCK_SIZE : Nat := 16

theorem forall_byte {property : UInt8 → Prop} (h : ∀ n : Fin 256, property (UInt8.ofNat n)) :
    ∀ byte, property byte := by
  intro byte
  have hbyte := h ⟨byte.toNat, byte.toNat_lt⟩
  rwa [UInt8.ofNat_toNat] at hbyte

/-- A fallible function goes on with what its first step returned. -/
theorem bind_of_eq_some {α β : Type} {x : Option α} {value : α} {next : α → Option β}
    {y : Option β} (h : x = some value) (hnext : next value = y) : x.bind next = y := by
  rw [h, Option.bind_some, hnext]

/-- A fallible function succeeds if its first step does and the others do after it. -/
theorem exists_bind {α β : Type} {x : Option α} {next : α → Option β} {p : α → Prop}
    {q : β → Prop} (h : ∃ value, x = some value ∧ p value)
    (hnext : ∀ value, p value → ∃ out, next value = some out ∧ q out) :
    ∃ out, x.bind next = some out ∧ q out := by
  obtain ⟨value, rfl, hvalue⟩ := h
  exact hnext value hvalue

/-! ### Characters -/

def opensslIsalnum (c : UInt8) : Bool :=
  ('a'.toUInt8 ≤ c ∧ c ≤ 'z'.toUInt8) ∨ ('A'.toUInt8 ≤ c ∧ c ≤ 'Z'.toUInt8) ∨
    ('0'.toUInt8 ≤ c ∧ c ≤ '9'.toUInt8)

def opensslTolower (c : UInt8) : UInt8 :=
  if 'A'.toUInt8 ≤ c ∧ c ≤ 'Z'.toUInt8 then c + ('a'.toUInt8 - 'A'.toUInt8) else c

structure FixedBytes (len : Nat) where
  bytes : Bytes
  length_eq : bytes.length = len

/-- An array of `cap` bytes of which some are used. -/
structure BoundedBytes (cap : Nat) where
  bytes : Bytes
  length_le : bytes.length ≤ cap

structure CString where
  bytes : Bytes
  no_zero : 0 ∉ bytes

/-! ### Reading -/

variable (cbs : Bytes)

def cbsGet (n : Nat) : Option (Bytes × Bytes) :=
  if cbs.length < n then none else some (cbs.take n, cbs.drop n)

/-- `cbs_get_u`: a big-endian integer of `len ≤ 8` bytes.  The 64-bit
    accumulator of the source does not overflow at these lengths. -/
def cbsGetU (len : Nat) : Option (Nat × Bytes) := do
  let (data, rest) ← cbsGet cbs len
  return (beNat data, rest)

def cbsGetU8 : Bytes → Option (UInt8 × Bytes)
  | [] => none
  | byte :: rest => some (byte, rest)

def cbsGetU16 : Option (UInt16 × Bytes) := do
  let (value, rest) ← cbsGetU cbs 2
  return (UInt16.ofNat value, rest)

def cbsGetU32 : Option (UInt32 × Bytes) := do
  let (value, rest) ← cbsGetU cbs 4
  return (UInt32.ofNat value, rest)

/-- `CBS_get_u24`; the `uint32_t` result is below `2 ^ 24`. -/
def cbsGetU24 : Option (Nat × Bytes) := cbsGetU cbs 3

def cbsGetBytes (len : Nat) : Option (Bytes × Bytes) := cbsGet cbs len

def cbsCopyBytes (len : Nat) : Option (Vector UInt8 len × Bytes) :=
  if h : len ≤ cbs.length then
    some (⟨(cbs.take len).toArray, by simp [h]⟩, cbs.drop len)
  else none

def cbsGetLengthPrefixed (lenLen : Nat) : Option (Bytes × Bytes) := do
  let (len, rest) ← cbsGetU cbs lenLen
  cbsGetBytes rest len

def cbsGetU16LengthPrefixed : Option (Bytes × Bytes) :=
  cbsGetLengthPrefixed cbs 2

def cbsSkip (len : Nat) : Option Bytes :=
  (cbsGet cbs len).map Prod.snd

/-! ### Writing -/

/-- `cbb_add_u`: `lenLen` bytes, failing when `value` does not fit in them. -/
def cbbAddU (value lenLen : Nat) : Option Bytes :=
  if value < 256 ^ lenLen then some (beBytes lenLen value) else none

def cbbAddU8 (value : UInt8) : Bytes := [value]

def cbbAddU16 (value : UInt16) : Bytes := beBytes 2 value.toNat

def cbbAddU32 (value : UInt32) : Bytes := beBytes 4 value.toNat

def cbbAddU24 (value : Nat) : Option Bytes := cbbAddU value 3

def cbbAddU24LengthPrefixed (contents : Bytes) : Option Bytes := do
  let prefixBytes ← cbbAddU24 contents.length
  return prefixBytes ++ contents

/-! ### Reading back -/

theorem cbsGet_append (bytes rest : Bytes) :
    cbsGet (bytes ++ rest) bytes.length = some (bytes, rest) := by
  simp [cbsGet]

theorem cbsGet_eq_some {cbs data rest : Bytes} {n : Nat} (h : cbsGet cbs n = some (data, rest)) :
    cbs = data ++ rest ∧ data.length = n := by
  unfold cbsGet at h
  split at h
  · cases h
  · rename_i hlength
    simp only [Option.some.injEq, Prod.mk.injEq] at h
    obtain ⟨rfl, rfl⟩ := h
    exact ⟨(List.take_append_drop n cbs).symm, by
      rw [List.length_take]; omega⟩

theorem cbsGetU_beBytes {len value : Nat} (hfits : value < 256 ^ len) (rest : Bytes) :
    cbsGetU (beBytes len value ++ rest) len = some (value, rest) := by
  have hget := cbsGet_append (beBytes len value) rest
  rw [length_beBytes] at hget
  simp [cbsGetU, hget, beNat_beBytes_of_lt hfits]

/-- What an integer reader returned is what the writer of that width would have appended. -/
theorem cbsGetU_eq_some {cbs rest : Bytes} {len value : Nat}
    (h : cbsGetU cbs len = some (value, rest)) :
    value < 256 ^ len ∧ cbs = beBytes len value ++ rest := by
  obtain ⟨⟨data, tail⟩, hget, hvalue⟩ := Option.bind_eq_some_iff.mp h
  obtain ⟨rfl, hlength⟩ := cbsGet_eq_some hget
  simp only [Option.pure_def, Option.some.injEq, Prod.mk.injEq] at hvalue
  obtain ⟨rfl, rfl⟩ := hvalue
  subst hlength
  exact ⟨beNat_lt data, by rw [beBytes_beNat]⟩

theorem cbsGetU8_eq_some {cbs rest : Bytes} {value : UInt8}
    (h : cbsGetU8 cbs = some (value, rest)) : cbs = cbbAddU8 value ++ rest := by
  cases cbs with
  | nil => cases h
  | cons byte tail => cases h; rfl

theorem cbsGetU16_eq_some {cbs rest : Bytes} {value : UInt16}
    (h : cbsGetU16 cbs = some (value, rest)) : cbs = cbbAddU16 value ++ rest := by
  obtain ⟨⟨number, tail⟩, hget, hvalue⟩ := Option.bind_eq_some_iff.mp h
  obtain ⟨hlt, rfl⟩ := cbsGetU_eq_some hget
  simp only [Option.pure_def, Option.some.injEq, Prod.mk.injEq] at hvalue
  obtain ⟨rfl, rfl⟩ := hvalue
  rw [cbbAddU16, UInt16.toNat_ofNat_of_lt' hlt]

@[simp] theorem cbsGetU8_cbbAddU8 (value : UInt8) (rest : Bytes) :
    cbsGetU8 (cbbAddU8 value ++ rest) = some (value, rest) := rfl

@[simp] theorem cbsGetU16_cbbAddU16 (value : UInt16) (rest : Bytes) :
    cbsGetU16 (cbbAddU16 value ++ rest) = some (value, rest) := by
  have hget : cbsGetU (beBytes 2 value.toNat ++ rest) 2 = some (value.toNat, rest) :=
    cbsGetU_beBytes value.toNat_lt rest
  simp [cbsGetU16, cbbAddU16, hget]

@[simp] theorem cbsGetU32_cbbAddU32 (value : UInt32) (rest : Bytes) :
    cbsGetU32 (cbbAddU32 value ++ rest) = some (value, rest) := by
  have hget : cbsGetU (beBytes 4 value.toNat ++ rest) 4 = some (value.toNat, rest) :=
    cbsGetU_beBytes value.toNat_lt rest
  simp [cbsGetU32, cbbAddU32, hget]

theorem cbsCopyBytes_append {len : Nat} (bytes : Vector UInt8 len) (rest : Bytes) :
    cbsCopyBytes (bytes.toList ++ rest) len = some (bytes, rest) := by
  have hlength : bytes.toList.length = len := Vector.length_toList
  unfold cbsCopyBytes
  rw [dif_pos (by rw [List.length_append, hlength]; exact Nat.le_add_right _ _)]
  have htake : (bytes.toList ++ rest).take len = bytes.toList := List.take_left' hlength
  simp only [htake, List.drop_left' hlength]
  rfl

theorem cbsGetLengthPrefixed_append {lenLen : Nat} {contents : Bytes}
    (hfits : contents.length < 256 ^ lenLen) (rest : Bytes) :
    cbsGetLengthPrefixed (beBytes lenLen contents.length ++ contents ++ rest) lenLen =
      some (contents, rest) := by
  rw [cbsGetLengthPrefixed, List.append_assoc, cbsGetU_beBytes hfits]
  exact cbsGet_append contents rest

theorem cbbAddU_eq_some {value lenLen : Nat} {out : Bytes} (h : cbbAddU value lenLen = some out) :
    value < 256 ^ lenLen ∧ out = beBytes lenLen value := by
  unfold cbbAddU at h
  split at h
  · rename_i hfits
    exact ⟨hfits, (Option.some.inj h).symm⟩
  · cases h

end AwsLc
