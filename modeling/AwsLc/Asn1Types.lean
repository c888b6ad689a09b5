import AwsLc.DerElement

/-!
# Typed DER elements (`cbs.c`, `cbb.c`)

The INTEGER, BOOLEAN and OCTET STRING contents that the serialization code uses, and optional
elements.  `Reads` says what every codec lemma of this file states: a reader applied to what a
writer appended returns the value and leaves whatever follows.
-/

namespace AwsLc

open AwsLc.BigEndian List Option Nat

/-- `read` takes `value` off the front of any input that begins with `bytes`. -/
def Reads {α : Type} (read : Bytes → Option (α × Bytes)) (bytes : Bytes) (value : α) : Prop :=
  ∀ rest, read (bytes ++ rest) = some (value, rest)

/-! ### Elements -/

def TagReads (tag : UInt32) : Prop :=
  Reads (fun cbs => parseAsn1Tag cbs false) (asn1TagBytes tag) tag

variable {tag : UInt32} {bytes contents : Bytes}

theorem tagReads_iff : TagReads tag ↔ TagOk tag := by
  constructor
  · intro h
    exact (parseAsn1Tag_iff.mp (h [])).1.resolve_left (by decide)
  · intro h rest
    exact parseAsn1Tag_iff.mpr ⟨Or.inr h, rfl⟩

/-- **An element is read back**, contents and all, whatever follows it. -/
theorem cbsGetAsn1_cbbAddAsn1 (htag : TagReads tag) (h : cbbAddAsn1 tag contents = some bytes) :
    Reads (cbsGetAsn1 tag) bytes contents := by
  intro rest
  rw [cbbAddAsn1_eq] at h
  split at h
  · next hlength =>
    cases h
    exact cbsGetAsn1_iff.mpr ⟨tagReads_iff.mp htag, by omega, rfl⟩
  · cases h

theorem length_cbbAddAsn1 (h : cbbAddAsn1 tag contents = some bytes) :
    bytes.length ≤ contents.length + 16 := by
  obtain ⟨length, hlength, hbytes⟩ := bind_eq_some_iff.mp h
  cases hbytes
  have htag : (asn1TagBytes tag).length ≤ 11 := by
    have hgroups := base128Groups_le 10 (tag &&& CBS_ASN1_TAG_NUMBER_MASK).toUInt64
    unfold asn1TagBytes
    dsimp only
    split
    · rw [length_cons, addBase128Integer, length_map, length_reverse,
        length_range]
      omega
    · exact le_of_ble_eq_true rfl
  have hlen : length.length ≤ 5 := by
    unfold asn1LengthBytes at hlength
    split_ifs at hlength <;> cases hlength <;> simp
  rw [length_append, length_append]
  omega

/-- An element of less than `2 ^ 32 - 1` bytes can be written. -/
theorem exists_cbbAddAsn1 (tag : UInt32) {contents : Bytes} {bound : Nat}
    (hlength : contents.length ≤ bound) (hbound : bound ≤ 0xfffffffe) :
    ∃ bytes, cbbAddAsn1 tag contents = some bytes ∧ bytes.length ≤ bound + 16 := by
  have hbytes : cbbAddAsn1 tag contents = some _ :=
    (cbbAddAsn1_eq tag contents).trans (if_pos (hlength.trans hbound))
  exact ⟨_, hbytes, (length_cbbAddAsn1 hbytes).trans (Nat.add_le_add_right hlength 16)⟩

/-! ### INTEGER -/

variable (value : UInt64)

/-- The contents octets of `CBB_add_asn1_uint64`: no leading zeros, but one to keep
    the number positive, and a single zero for the number zero. -/
def asn1Uint64Contents : Bytes :=
  match (beBytes 8 value.toNat).dropWhile (· = 0) with
  | [] => [0]
  | byte :: rest => if byte &&& 0x80 ≠ 0 then 0 :: byte :: rest else byte :: rest

def cbbAddAsn1Uint64 : Option Bytes :=
  cbbAddAsn1 CBS_ASN1_INTEGER (asn1Uint64Contents value)

/-- Drop a leading `0xff` as long as the byte after it also carries the sign. -/
def dropSignExtension : Bytes → Bytes
  | first :: second :: rest =>
    if first = 0xff ∧ second &&& 0x80 ≠ 0 then dropSignExtension (second :: rest)
    else first :: second :: rest
  | bytes => bytes

def cbbAddAsn1Int64 (value : Int64) : Option Bytes :=
  if value ≥ 0 then cbbAddAsn1Uint64 value.toUInt64
  else cbbAddAsn1 CBS_ASN1_INTEGER (dropSignExtension (beBytes 8 value.toUInt64.toNat))

def cbsIsValidAsn1Integer : Bytes → Option Bool
  | [] => none
  | [first] => some (first &&& 0x80 ≠ 0)
  | first :: second :: _ =>
    if (first = 0x00 ∧ second &&& 0x80 = 0) ∨ (first = 0xff ∧ second &&& 0x80 ≠ 0) then none
    else some (first &&& 0x80 ≠ 0)

def asn1Uint64Value : Bytes → UInt64 → Option UInt64
  | [], out => some out
  | byte :: rest, out =>
    if out >>> 56 ≠ 0 then none else asn1Uint64Value rest ((out <<< 8) ||| byte.toUInt64)

def cbsGetAsn1Uint64 (cbs : Bytes) : Option (UInt64 × Bytes) := do
  let (bytes, rest) ← cbsGetAsn1 CBS_ASN1_INTEGER cbs
  if cbsIsValidAsn1Integer bytes ≠ some false then none
  let value ← asn1Uint64Value bytes 0
  return (value, rest)

def cbsGetAsn1Int64 (cbs : Bytes) : Option (Int64 × Bytes) := do
  let (bytes, rest) ← cbsGetAsn1 CBS_ASN1_INTEGER cbs
  let isNegative ← cbsIsValidAsn1Integer bytes
  if bytes.length > 8 then none
  let signExtend : UInt8 := if isNegative then 0xff else 0
  let extended := List.replicate (8 - bytes.length) signExtend ++ bytes
  return ((UInt64.ofNat (beNat extended)).toInt64, rest)

/-- The loop returns the number that the octets add to the accumulator, where it fits. -/
theorem asn1Uint64Value_iff {out value : UInt64} : asn1Uint64Value bytes out = some value ↔
      value.toNat = out.toNat * 256 ^ bytes.length + beNat bytes := by
  induction bytes generalizing out with
  | nil => simp [asn1Uint64Value, UInt64.toNat_inj, eq_comm]
  | cons byte rest ih =>
    have hshift : out >>> 56 = 0 ↔ out.toNat < 2 ^ 56 := by
      rw [← UInt64.toNat_inj, UInt64.toNat_shiftRight]
      show out.toNat >>> 56 = 0 ↔ _
      rw [Nat.shiftRight_eq_div_pow]
      exact Nat.div_eq_zero_iff_lt (by decide)
    rw [asn1Uint64Value, beNat_cons, length_cons]
    by_cases hsmall : out.toNat < 2 ^ 56
    · have hstep : ((out <<< 8) ||| byte.toUInt64).toNat = out.toNat * 256 + byte.toNat := by
        have := byte.toNat_lt
        rw [shiftOr_toNat]
        exact mod_eq_of_lt (by omega)
      rw [if_neg (not_not.mpr (hshift.mpr hsmall)), ih, hstep]
      ring_nf
    · rw [if_pos (fun h => hsmall (hshift.mp h))]
      refine iff_of_false nofun fun hvalue => ?_
      have hpos : 0 < 256 ^ rest.length := Nat.pow_pos (by decide)
      have hle : out.toNat * 256 ≤ out.toNat * 256 ^ (rest.length + 1) :=
        Nat.mul_le_mul_left _ (by omega)
      have hlt := value.toNat_lt
      omega

theorem asn1Uint64Contents_valid :
    cbsIsValidAsn1Integer (asn1Uint64Contents value) = some false := by
  unfold asn1Uint64Contents
  split
  · decide
  · rename_i byte rest hdigits
    have hbyte : byte ≠ 0 := by
      have hhead := List.head?_dropWhile_not (· = 0) (beBytes 8 value.toNat)
      rw [hdigits] at hhead
      simpa using hhead
    split
    · rename_i hhigh
      rw [cbsIsValidAsn1Integer, if_neg (by simp [hhigh])]
      decide
    · rename_i hhigh
      rw [ne_eq, not_not] at hhigh
      have hff : byte ≠ 0xff := by
        intro heq
        rw [heq] at hhigh
        exact absurd hhigh (by decide)
      cases rest with
      | nil => simp [cbsIsValidAsn1Integer, hhigh]
      | cons second rest =>
        rw [cbsIsValidAsn1Integer, if_neg (by simp [hbyte, hff])]
        simp [hhigh]

theorem digits_uint64 : ((beBytes 8 value.toNat).dropWhile (· = 0)).length ≤ 8 ∧
      beNat ((beBytes 8 value.toNat).dropWhile (· = 0)) = value.toNat := by
  constructor
  · have hlength := (dropWhile_sublist (l := beBytes 8 value.toNat) (· = 0)).length_le
    rwa [length_beBytes] at hlength
  · rw [beNat_dropWhile_zero]
    exact beNat_beBytes_of_lt value.toNat_lt

theorem asn1Uint64Contents_value : beNat (asn1Uint64Contents value) = value.toNat := by
  have hdigits := (digits_uint64 value).2
  unfold asn1Uint64Contents
  split
  · rename_i hnil
    rw [hnil] at hdigits
    exact hdigits
  · rename_i byte rest hcons
    rw [hcons] at hdigits
    split
    · rw [beNat_cons]
      simpa using hdigits
    · exact hdigits

theorem length_asn1Uint64Contents : (asn1Uint64Contents value).length ≤ 9 := by
  have hdigits := (digits_uint64 value).1
  unfold asn1Uint64Contents
  split
  · simp
  · rename_i byte rest hcons
    rw [hcons, length_cons] at hdigits
    split
    · rw [length_cons, length_cons]
      omega
    · rw [length_cons]
      omega

theorem tagReads_integer : TagReads CBS_ASN1_INTEGER := tagReads_iff.mpr (by decide)

/-- **Unsigned INTEGERs are read back.** -/
theorem cbsGetAsn1Uint64_reads {value : UInt64} (h : cbbAddAsn1Uint64 value = some bytes) :
    Reads cbsGetAsn1Uint64 bytes value := by
  intro rest
  have hcontents := cbsGetAsn1_cbbAddAsn1 tagReads_integer h rest
  have hvalue : asn1Uint64Value (asn1Uint64Contents value) 0 = some value := by
    rw [asn1Uint64Value_iff, asn1Uint64Contents_value]
    simp
  simp [cbsGetAsn1Uint64, hcontents, asn1Uint64Contents_valid, hvalue]

theorem exists_cbbAddAsn1Uint64 :
    ∃ bytes, cbbAddAsn1Uint64 value = some bytes ∧ bytes.length ≤ 25 :=
  exists_cbbAddAsn1 CBS_ASN1_INTEGER (length_asn1Uint64Contents value) (by decide)

theorem int64_nonneg_iff (value : Int64) : value ≥ 0 ↔ value.toUInt64.toNat < 2 ^ 63 := by
  rw [ge_iff_le, Int64.le_iff_toInt_le]
  show (0 : Int) ≤ value.toBitVec.toInt ↔ value.toBitVec.toNat < 2 ^ 63
  rw [BitVec.toInt_eq_toNat_cond]
  split <;> omega

theorem signBit_iff : ∀ byte : UInt8, byte &&& 0x80 ≠ 0 ↔ 128 ≤ byte.toNat := by
  apply forall_byte
  decide +kernel

theorem length_asn1Uint64Contents_of_lt {value : UInt64} (hvalue : value.toNat < 2 ^ 63) :
    (asn1Uint64Contents value).length ≤ 8 := by
  have hdigits := (digits_uint64 value).1
  have hnumber := (digits_uint64 value).2
  unfold asn1Uint64Contents
  split
  · simp
  · rename_i byte rest hcons
    rw [hcons, length_cons] at hdigits
    rw [hcons, beNat_cons] at hnumber
    split
    · -- the sign octet is only added when the first digit is at least 128
      rename_i hhigh
      have hbyte : 128 ≤ byte.toNat := (signBit_iff byte).mp hhigh
      have hrest : rest.length ≠ 7 := by
        intro hlength
        rw [hlength] at hnumber
        omega
      rw [length_cons, length_cons]
      omega
    · rw [length_cons]
      omega

/-- What is dropped is a run of sign octets, and what is left starts with the same sign. -/
theorem dropSignExtension_spec {first : UInt8} (rest : Bytes) (hsign : first &&& 0x80 ≠ 0) :
    (∃ dropped, first :: rest = List.replicate dropped 0xff ++ dropSignExtension (first :: rest)) ∧
      cbsIsValidAsn1Integer (dropSignExtension (first :: rest)) = some true := by
  induction rest generalizing first with
  | nil => exact ⟨⟨0, rfl⟩, by simp [dropSignExtension, cbsIsValidAsn1Integer, hsign]⟩
  | cons second rest ih =>
    by_cases hdrop : first = 0xff ∧ second &&& 0x80 ≠ 0
    · obtain ⟨⟨dropped, hdropped⟩, hvalid⟩ := ih hdrop.2
      rw [dropSignExtension, if_pos hdrop]
      refine ⟨⟨dropped + 1, ?_⟩, hvalid⟩
      rw [hdrop.1, replicate_succ, cons_append, ← hdropped]
    · rw [dropSignExtension, if_neg hdrop]
      refine ⟨⟨0, rfl⟩, ?_⟩
      have hzero : first ≠ 0 := by
        intro heq
        rw [heq] at hsign
        exact hsign (by decide)
      rw [cbsIsValidAsn1Integer, if_neg (by
        rintro (⟨hfirst, -⟩ | hff)
        · exact hzero hfirst
        · exact hdrop hff)]
      simp [hsign]

private theorem cbsGetAsn1Int64_of_contents {value : Int64} {isNegative : Bool}
    (h : cbbAddAsn1 CBS_ASN1_INTEGER contents = some bytes)
    (hvalid : cbsIsValidAsn1Integer contents = some isNegative) (hlength : contents.length ≤ 8)
    (hvalue : beNat (List.replicate (8 - contents.length) (if isNegative then 0xff else 0) ++
      contents) = value.toUInt64.toNat) : Reads cbsGetAsn1Int64 bytes value := by
  intro rest
  have hcontents := cbsGetAsn1_cbbAddAsn1 tagReads_integer h rest
  simp only [cbsGetAsn1Int64, hcontents, hvalid, bind_eq_bind, bind_some,
    if_neg (not_lt.mpr hlength), Option.pure_def, hvalue]
  simp

/-- **Signed INTEGERs are read back.** -/
theorem cbsGetAsn1Int64_reads {value : Int64} (h : cbbAddAsn1Int64 value = some bytes) :
    Reads cbsGetAsn1Int64 bytes value := by
  unfold cbbAddAsn1Int64 at h
  by_cases hsign : value ≥ 0
  · rw [if_pos hsign] at h
    apply cbsGetAsn1Int64_of_contents h (asn1Uint64Contents_valid _)
    · exact length_asn1Uint64Contents_of_lt ((int64_nonneg_iff value).mp hsign)
    · simp only [Bool.false_eq_true, if_false]
      rw [beNat_replicate_zero_append, asn1Uint64Contents_value]
  · rw [if_neg hsign] at h
    rw [int64_nonneg_iff] at hsign
    obtain ⟨first, rest, hdigits⟩ : ∃ first rest,
        beBytes 8 value.toUInt64.toNat = first :: rest := by
      rcases hbytes : beBytes 8 value.toUInt64.toNat with _ | ⟨first, rest⟩
      · have := length_beBytes 8 value.toUInt64.toNat
        rw [hbytes] at this
        cases this
      · exact ⟨first, rest, rfl⟩
    have hnumber : beNat (first :: rest) = value.toUInt64.toNat := by
      rw [← hdigits]
      exact beNat_beBytes_of_lt value.toUInt64.toNat_lt
    have hlength : (first :: rest).length = 8 := by rw [← hdigits, length_beBytes]
    rw [length_cons] at hlength
    have hfirst : first &&& 0x80 ≠ 0 := by
      rw [signBit_iff]
      have hrest := beNat_lt rest
      rw [show rest.length = 7 by omega] at hrest
      rw [beNat_cons, show rest.length = 7 by omega] at hnumber
      omega
    rw [hdigits] at h
    obtain ⟨⟨dropped, hdropped⟩, hvalid⟩ := dropSignExtension_spec rest hfirst
    have hcount : 8 - (dropSignExtension (first :: rest)).length = dropped := by
      have := congrArg List.length hdropped
      simp only [length_cons, length_append, length_replicate] at this
      omega
    have hshort : (dropSignExtension (first :: rest)).length ≤ 8 := by
      have := congrArg List.length hdropped
      simp only [length_cons, length_append, length_replicate] at this
      omega
    apply cbsGetAsn1Int64_of_contents h hvalid hshort
    simp only [if_true]
    rw [hcount, ← hdropped, hnumber]

theorem length_dropSignExtension (bytes : Bytes) :
    (dropSignExtension bytes).length ≤ bytes.length := by
  fun_induction dropSignExtension bytes with
  | case1 first second rest hdrop ih => exact le_succ_of_le ih
  | case2 first second rest hdrop => exact le_refl _
  | case3 bytes hshort => exact le_refl _

theorem exists_cbbAddAsn1Int64 (value : Int64) :
    ∃ bytes, cbbAddAsn1Int64 value = some bytes ∧ bytes.length ≤ 25 := by
  unfold cbbAddAsn1Int64
  split
  · exact exists_cbbAddAsn1Uint64 _
  · have hcontents := length_dropSignExtension (beBytes 8 value.toUInt64.toNat)
    rw [length_beBytes] at hcontents
    obtain ⟨bytes, hbytes, hlength⟩ :=
      exists_cbbAddAsn1 CBS_ASN1_INTEGER hcontents (by decide)
    exact ⟨bytes, hbytes, by omega⟩

/-! ### BOOLEAN and OCTET STRING -/

def cbbAddAsn1Bool (value : Bool) : Option Bytes :=
  cbbAddAsn1 CBS_ASN1_BOOLEAN (cbbAddU8 (if value then 0xff else 0))

def cbsGetAsn1Bool (cbs : Bytes) : Option (Bool × Bytes) := do
  let (bytes, rest) ← cbsGetAsn1 CBS_ASN1_BOOLEAN cbs
  match bytes with
  | [value] => if value ≠ 0 ∧ value ≠ 0xff then none else some (value ≠ 0, rest)
  | _ => none

def cbbAddAsn1OctetString (data : Bytes) : Option Bytes :=
  cbbAddAsn1 CBS_ASN1_OCTETSTRING data

theorem tagReads_boolean : TagReads CBS_ASN1_BOOLEAN := tagReads_iff.mpr (by decide)

theorem tagReads_octetString : TagReads CBS_ASN1_OCTETSTRING := tagReads_iff.mpr (by decide)

theorem tagReads_sequence : TagReads CBS_ASN1_SEQUENCE := tagReads_iff.mpr (by decide)

theorem exists_cbbAddAsn1Bool (value : Bool) :
    ∃ bytes, cbbAddAsn1Bool value = some bytes ∧ bytes.length ≤ 17 :=
  exists_cbbAddAsn1 _ (by simp [cbbAddU8]) (by decide)

theorem cbsGetAsn1Bool_reads {value : Bool} (h : cbbAddAsn1Bool value = some bytes) :
    Reads cbsGetAsn1Bool bytes value := by
  intro rest
  have hcontents := cbsGetAsn1_cbbAddAsn1 tagReads_boolean h rest
  cases value <;> simp [cbsGetAsn1Bool, hcontents, cbbAddU8]

/-! ### Optional elements -/

def cbsGetOptionalAsn1 (tag : UInt32) (cbs : Bytes) : Option (Option Bytes × Bytes) :=
  if cbsPeekAsn1Tag cbs tag then
    match cbsGetAsn1 tag cbs with
    | none => none
    | some (out, rest) => some (some out, rest)
  else some (none, cbs)

def cbsGetOptionalAsn1Bool (tag : UInt32) (defaultValue : Bool) (cbs : Bytes) :
    Option (Bool × Bytes) := do
  let (child, rest) ← cbsGetOptionalAsn1 tag cbs
  match child with
  | none => some (defaultValue, rest)
  | some child =>
    let (child2, childRest) ← cbsGetAsn1 CBS_ASN1_BOOLEAN child
    match child2, childRest with
    | [boolean], [] =>
      if boolean = 0 then some (false, rest)
      else if boolean = 0xff then some (true, rest)
      else none
    | _, _ => none

theorem cbsPeekAsn1Tag_cbbAddAsn1 (htag : TagReads tag) (h : cbbAddAsn1 tag contents = some bytes)
    (rest : Bytes) (tagValue : UInt32) :
    cbsPeekAsn1Tag (bytes ++ rest) tagValue = decide (tag = tagValue) := by
  obtain ⟨length, hlength, hbytes⟩ := bind_eq_some_iff.mp h
  cases hbytes
  have hidentifier := htag (length ++ contents ++ rest)
  dsimp only at hidentifier
  rw [append_assoc, cbsPeekAsn1Tag, hidentifier]

theorem cbsGetOptionalAsn1_present (htag : TagReads tag) (h : cbbAddAsn1 tag contents = some bytes)
    : Reads (cbsGetOptionalAsn1 tag) bytes (some contents) := by
  intro rest
  rw [cbsGetOptionalAsn1, cbsPeekAsn1Tag_cbbAddAsn1 htag h, if_pos (decide_eq_true rfl),
    cbsGetAsn1_cbbAddAsn1 htag h rest]

theorem cbsGetOptionalAsn1_absent {cbs : Bytes} (h : cbsPeekAsn1Tag cbs tag = false) :
    cbsGetOptionalAsn1 tag cbs = some (none, cbs) := by
  rw [cbsGetOptionalAsn1, h]
  rfl

/-- An optional `true`, which is how the serializers write a flag that is set. -/
def cbbAddOptionalTrue (tag : UInt32) (flag : Bool) : Option Bytes :=
  if flag then do
    let child ← cbbAddAsn1Bool true
    cbbAddAsn1 tag child
  else some []

theorem exists_cbbAddOptionalTrue (tag : UInt32) (flag : Bool) :
    ∃ bytes, cbbAddOptionalTrue tag flag = some bytes ∧ bytes.length ≤ 19 := by
  cases flag with
  | false => exact ⟨_, rfl, zero_le _⟩
  | true =>
    rw [show cbbAddOptionalTrue tag true = cbbAddAsn1 tag [1, 1, 0xff] from rfl]
    exact exists_cbbAddAsn1 tag (le_refl 3) (by decide)

end AwsLc
