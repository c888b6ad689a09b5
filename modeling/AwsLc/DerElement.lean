import AwsLc.Base128

/-!
# The element codec (`cbs.c`, `cbb.c`)

`CBS_get_any_asn1_element` takes the tag number and the length in their shortest forms only, as
`CBB_add_asn1` writes them, so that reading and writing are inverse to each other, except for a
length of `0xffffffff`, which the writer refuses.  With `ber_ok` the reader also takes longer
lengths and the indefinite length, whose element is the header alone.
-/

namespace AwsLc

open AwsLc.BigEndian AwsLc.Numeral List Option

/-- `CBS_get_any_asn1`: the tag, the contents and the rest. -/
def cbsGetAnyAsn1 (cbs : Bytes) : Option ((UInt32 × Bytes) × Bytes) := do
  let ((tag, headerLen, out), rest) ← cbsGetAnyAsn1Element cbs
  let contents ← cbsSkip out headerLen
  return ((tag, contents), rest)

/-! ### Tags -/

/-- A tag that the readers accept: class and number are not both zero. -/
abbrev TagOk (tag : UInt32) : Prop := tag &&& ~~~CBS_ASN1_CONSTRUCTED ≠ 0

abbrev Constructed (tag : UInt32) : Prop := tag &&& CBS_ASN1_CONSTRUCTED ≠ 0

def makeTag (bits number : Nat) : UInt32 := UInt32.ofNat (bits * 2 ^ 29 + number)

variable {bits number : Nat}

theorem makeTag_toNat (hbits : bits < 8) (hnumber : number < 2 ^ 29) :
    (makeTag bits number).toNat = bits * 2 ^ 29 + number :=
  UInt32.toNat_ofNat_of_lt' (by show _ < 2 ^ 32; omega)

variable (tag : UInt32)

theorem makeTag_split : makeTag (tag.toNat / 2 ^ 29) (tag.toNat % 2 ^ 29) = tag := by
  rw [makeTag, Nat.div_add_mod']
  exact UInt32.ofNat_toNat

theorem makeTag_number (hbits : bits < 8) (hnumber : number < 2 ^ 29) :
    makeTag bits number &&& CBS_ASN1_TAG_NUMBER_MASK = UInt32.ofNat number := by
  apply UInt32.toNat_inj.mp
  rw [UInt32.toNat_and, makeTag_toNat hbits hnumber]
  change (bits * 2 ^ 29 + number) &&& (2 ^ 29 - 1) = _
  rw [Nat.and_two_pow_sub_one_eq_mod, UInt32.toNat_ofNat_of_lt' (by show _ < 2 ^ 32; omega)]
  omega

theorem makeTag_bits (hbits : bits < 8) (hnumber : number < 2 ^ 29) :
    ((makeTag bits number >>> 24) &&& 0xe0).toUInt8 = UInt8.ofNat (bits * 32) := by
  have hshift : (makeTag bits number >>> 24).toNat = bits * 32 + number / 2 ^ 24 := by
    rw [UInt32.toNat_shiftRight, makeTag_toNat hbits hnumber]
    change (bits * 2 ^ 29 + number) >>> 24 = _
    rw [Nat.shiftRight_eq_div_pow]
    omega
  have hmask : ∀ (bits : Fin 8) (low : Fin 32),
      ((bits.val * 32 + low.val) &&& 0xe0) = bits.val * 32 := by decide +kernel
  apply UInt8.toNat_inj.mp
  rw [UInt32.toNat_toUInt8, UInt32.toNat_and, hshift, UInt8.toNat_ofNat']
  congr 1
  exact hmask ⟨bits, hbits⟩ ⟨number / 2 ^ 24, by omega⟩

theorem or_eq_makeTag (hbits : bits < 8) (hnumber : number < 2 ^ 29) :
    ((UInt8.ofNat (bits * 32)).toUInt32 <<< 24) ||| UInt32.ofNat number = makeTag bits number := by
  have hshift : ((UInt8.ofNat (bits * 32)).toUInt32 <<< 24).toNat = bits <<< 29 := by
    have hall : ∀ bits : Fin 8,
        ((UInt8.ofNat (bits * 32)).toUInt32 <<< 24).toNat = bits.val <<< 29 := by decide
    exact hall ⟨bits, hbits⟩
  apply UInt32.toNat_inj.mp
  rw [UInt32.toNat_or, hshift, makeTag_toNat hbits hnumber,
    UInt32.toNat_ofNat_of_lt' (by show _ < 2 ^ 32; omega),
    ← Nat.shiftLeft_add_eq_or_of_lt hnumber, Nat.shiftLeft_eq]

/-- The first octet of the identifier, in both forms. -/
theorem tagByte_facts : ∀ (bits : Fin 8) (low : Fin 32),
    (UInt8.ofNat (bits * 32) ||| UInt8.ofNat low) &&& 0xe0 = UInt8.ofNat (bits * 32) ∧
    (UInt8.ofNat (bits * 32) ||| UInt8.ofNat low) &&& 0x1f = UInt8.ofNat low ∧
    (UInt8.ofNat low = 0x1f ↔ low.val = 31) := by
  decide +kernel

theorem tagByte_split (tagByte : UInt8) :
    ∃ bits low, bits < 8 ∧ low < 32 ∧ tagByte = UInt8.ofNat (bits * 32) ||| UInt8.ofNat low := by
  have hall : ∀ byte : UInt8,
      byte = UInt8.ofNat (byte.toNat / 32 * 32) ||| UInt8.ofNat (byte.toNat % 32) := by
    apply forall_byte
    decide +kernel
  have hlt := tagByte.toNat_lt
  exact ⟨tagByte.toNat / 32, tagByte.toNat % 32, by omega, by omega, hall tagByte⟩

theorem asn1TagBytes_makeTag (hbits : bits < 8) (hnumber : number < 2 ^ 29) :
    asn1TagBytes (makeTag bits number) = if 31 ≤ number then
        (UInt8.ofNat (bits * 32) ||| UInt8.ofNat 31) :: addBase128Integer (UInt64.ofNat number)
      else [UInt8.ofNat (bits * 32) ||| UInt8.ofNat number] := by
  have hvalue : (UInt32.ofNat number).toNat = number :=
    UInt32.toNat_ofNat_of_lt' (by show _ < 2 ^ 32; omega)
  have hcompare : UInt32.ofNat number ≥ 0x1f ↔ 31 ≤ number := by
    rw [ge_iff_le, UInt32.le_iff_toNat_le, hvalue]
    rfl
  unfold asn1TagBytes
  simp only [makeTag_number hbits hnumber, makeTag_bits hbits hnumber, hcompare]
  have hwide : (UInt32.ofNat number).toUInt64 = UInt64.ofNat number := by
    apply UInt64.toNat_inj.mp
    rw [UInt32.toNat_toUInt64, hvalue, UInt64.toNat_ofNat_of_lt' (by show _ < 2 ^ 64; omega)]
  have hnarrow : (UInt32.ofNat number).toUInt8 = UInt8.ofNat number := by
    apply UInt8.toNat_inj.mp
    rw [UInt32.toNat_toUInt8, hvalue, UInt8.toNat_ofNat']
  rw [hwide, hnarrow]
  rfl

theorem tagByte_low_inj {low low' : Nat} (hbits : bits < 8) (hlow : low < 32) (hlow' : low' < 32)
    (h : UInt8.ofNat (bits * 32) ||| UInt8.ofNat low =
      UInt8.ofNat (bits * 32) ||| UInt8.ofNat low') : low = low' := by
  have hmask : (UInt8.ofNat (bits * 32) ||| UInt8.ofNat low) &&& 0x1f =
      (UInt8.ofNat (bits * 32) ||| UInt8.ofNat low') &&& 0x1f := by rw [h]
  rw [(tagByte_facts ⟨bits, hbits⟩ ⟨low, hlow⟩).2.1,
    (tagByte_facts ⟨bits, hbits⟩ ⟨low', hlow'⟩).2.1] at hmask
  have hvalue := congrArg UInt8.toNat hmask
  simp only [UInt8.toNat_ofNat'] at hvalue
  omega

theorem tagByte_bits_inj {bits' low low' : Nat} (hbits : bits < 8) (hbits' : bits' < 8)
    (hlow : low < 32) (hlow' : low' < 32) (h : UInt8.ofNat (bits * 32) ||| UInt8.ofNat low =
      UInt8.ofNat (bits' * 32) ||| UInt8.ofNat low') : bits = bits' := by
  have hmask : (UInt8.ofNat (bits * 32) ||| UInt8.ofNat low) &&& 0xe0 =
      (UInt8.ofNat (bits' * 32) ||| UInt8.ofNat low') &&& 0xe0 := by rw [h]
  rw [(tagByte_facts ⟨bits, hbits⟩ ⟨low, hlow⟩).1,
    (tagByte_facts ⟨bits', hbits'⟩ ⟨low', hlow'⟩).1] at hmask
  have hvalue := congrArg UInt8.toNat hmask
  simp only [UInt8.toNat_ofNat'] at hvalue
  omega

theorem asn1TagBytes_first (hbits : bits < 8) (hnumber : number < 2 ^ 29) :
    ∃ low tail, low < 32 ∧ asn1TagBytes (makeTag bits number) =
      (UInt8.ofNat (bits * 32) ||| UInt8.ofNat low) :: tail := by
  rw [asn1TagBytes_makeTag hbits hnumber]
  split
  · exact ⟨31, _, by decide, rfl⟩
  · exact ⟨number, _, by omega, rfl⟩

/-- The number that follows the first octet of an identifier. -/
theorem parseAsn1TagNumber_iff {low : Nat} (hbits : bits < 8) (hlow : low < 32) {bytes rest : Bytes}
    {tagNumber : UInt32} : parseAsn1TagNumber (UInt8.ofNat (bits * 32) ||| UInt8.ofNat low) bytes =
        some (tagNumber, rest) ↔ tagNumber.toNat < 2 ^ 29 ∧
        (UInt8.ofNat (bits * 32) ||| UInt8.ofNat low) :: bytes =
          asn1TagBytes (makeTag bits tagNumber.toNat) ++ rest := by
  obtain ⟨-, hlowBits, hform⟩ := tagByte_facts ⟨bits, hbits⟩ ⟨low, hlow⟩
  dsimp only at hlowBits hform
  have hsmall : low ≠ 31 → (UInt8.ofNat low).toUInt32.toNat = low := by
    intro _
    rw [UInt8.toNat_toUInt32, UInt8.toNat_ofNat']
    omega
  unfold parseAsn1TagNumber
  rw [hlowBits]
  constructor
  · intro h
    by_cases hhigh : low = 31
    · rw [if_pos (hform.mpr hhigh)] at h
      split at h
      · cases h
      next v rest' hparse =>
      split at h
      · cases h
      next hrange =>
      cases h
      rw [not_or, gt_iff_lt, UInt64.lt_iff_toNat_lt, UInt64.lt_iff_toNat_lt] at hrange
      obtain ⟨hle, hge⟩ := hrange
      change ¬536870911 < v.toNat at hle
      change ¬v.toNat < 31 at hge
      have hnumber : v.toUInt32.toNat = v.toNat := by
        rw [UInt64.toNat_toUInt32]
        omega
      rw [hnumber, asn1TagBytes_makeTag hbits (by omega), if_pos (by omega), UInt64.ofNat_toNat,
        hhigh, cons_append, parseBase128Integer_iff.mp hparse]
      exact ⟨by omega, rfl⟩
    · rw [if_neg (fun heq => hhigh (hform.mp heq))] at h
      cases h
      rw [hsmall hhigh, asn1TagBytes_makeTag hbits (by omega), if_neg (by omega)]
      exact ⟨by omega, rfl⟩
  · rintro ⟨hlt, hbytes⟩
    rw [asn1TagBytes_makeTag hbits hlt] at hbytes
    split at hbytes
    · next hlarge =>
      rw [cons_append, List.cons.injEq] at hbytes
      have hhigh := tagByte_low_inj hbits hlow (by decide) hbytes.1
      have hvalue : (UInt64.ofNat tagNumber.toNat).toNat = tagNumber.toNat :=
        UInt64.toNat_ofNat_of_lt' (by show _ < 2 ^ 64; omega)
      have hback : (UInt64.ofNat tagNumber.toNat).toUInt32 = tagNumber := by
        apply UInt32.toNat_inj.mp
        rw [UInt64.toNat_toUInt32, hvalue]
        omega
      rw [if_pos (hform.mpr hhigh), parseBase128Integer_iff.mpr hbytes.2]
      dsimp only
      rw [if_neg, hback]
      rw [not_or, gt_iff_lt, UInt64.lt_iff_toNat_lt, UInt64.lt_iff_toNat_lt, hvalue]
      constructor
      · change ¬536870911 < tagNumber.toNat
        omega
      · change ¬tagNumber.toNat < 31
        omega
    · next hsmallNumber =>
      rw [singleton_append, List.cons.injEq] at hbytes
      have hsame := tagByte_low_inj hbits hlow (by omega) hbytes.1
      rw [if_neg (fun heq => by have := hform.mp heq; omega), hbytes.2]
      congr 2
      apply UInt32.toNat_inj.mp
      rw [hsmall (by omega)]
      exact hsame

/-- **Identifiers.**  The parser accepts exactly the identifiers that are written for some
    tag, [UNIVERSAL 0] only where it is allowed. -/
theorem parseAsn1Tag_iff {cbs rest : Bytes} {universalTagOk : Bool} {tag : UInt32} :
    parseAsn1Tag cbs universalTagOk = some (tag, rest) ↔ (universalTagOk = true ∨ TagOk tag) ∧
        cbs = asn1TagBytes tag ++ rest := by
  rcases cbs with _ | ⟨tagByte, bytes⟩
  · constructor
    · intro h
      cases h
    · rintro ⟨-, h⟩
      unfold asn1TagBytes at h
      dsimp only at h
      split at h <;> cases h
  obtain ⟨bits, low, hbits, hlow, rfl⟩ := tagByte_split tagByte
  obtain ⟨hbitsMask, -, -⟩ := tagByte_facts ⟨bits, hbits⟩ ⟨low, hlow⟩
  dsimp only at hbitsMask
  simp only [parseAsn1Tag, cbsGetU8, bind_eq_bind, bind_some, hbitsMask]
  constructor
  · intro h
    obtain ⟨⟨tagNumber, rest'⟩, hnumber, h⟩ := bind_eq_some_iff.mp h
    obtain ⟨hlt, hbytes⟩ := (parseAsn1TagNumber_iff hbits hlow).mp hnumber
    have hmake := or_eq_makeTag hbits hlt
    rw [UInt32.ofNat_toNat] at hmake
    dsimp only at h
    rw [hmake] at h
    split at h
    · cases h
    · next huniversal =>
      cases h
      refine ⟨?_, hbytes⟩
      cases universalTagOk <;> simp_all
  · rintro ⟨huniversal, hbytes⟩
    have htagLt := tag.toNat_lt
    have hsplit := makeTag_split tag
    have hbitsEq : tag.toNat / 2 ^ 29 = bits := by
      obtain ⟨low', tail, hlow', hfirst⟩ :=
        @asn1TagBytes_first (tag.toNat / 2 ^ 29) _ (by omega) (Nat.mod_lt tag.toNat (by decide))
      rw [← hsplit, hfirst, cons_append, List.cons.injEq] at hbytes
      exact (tagByte_bits_inj hbits (by omega) hlow hlow' hbytes.1).symm
    have hnumberLt : tag.toNat % 2 ^ 29 < 2 ^ 29 := Nat.mod_lt _ (by decide)
    have hnumber : (UInt32.ofNat (tag.toNat % 2 ^ 29)).toNat = tag.toNat % 2 ^ 29 :=
      UInt32.toNat_ofNat_of_lt' (by show _ < 2 ^ 32; omega)
    rw [hbitsEq] at hsplit
    have hparse := (@parseAsn1TagNumber_iff _ _ hbits hlow bytes rest
      (UInt32.ofNat (tag.toNat % 2 ^ 29))).mpr
        ⟨by rw [hnumber]; exact hnumberLt, by rw [hnumber, hsplit]; exact hbytes⟩
    rw [hparse, bind_some]
    dsimp only
    rw [or_eq_makeTag hbits hnumberLt, hsplit, if_neg]
    rintro ⟨hnot, hzero⟩
    rcases huniversal with hok | hne
    · rw [hok] at hnot
      cases hnot
    · exact hne hzero

/-! ### Lengths -/

def lengthWidth (len : Nat) : Nat :=
  if len > 0xffffff then 4 else if len > 0xffff then 3 else if len > 0xff then 2 else 1

def lengthOctets (len : Nat) : Bytes :=
  if len ≤ 0x7f then [UInt8.ofNat len]
  else (UInt8.ofNat (lengthWidth len) ||| 0x80) :: beBytes (lengthWidth len) len

theorem asn1LengthBytes_eq (len : Nat) :
    asn1LengthBytes len = if len ≤ 0xfffffffe then some (lengthOctets len) else none := by
  unfold asn1LengthBytes lengthOctets lengthWidth
  by_cases hlarge : len ≤ 0xfffffffe
  · rw [if_neg (by omega), if_pos hlarge]
    split_ifs <;> first | omega | rfl
  · rw [if_pos (by omega), if_neg hlarge]

theorem lengthWidth_spec {len : Nat} (hlong : 0x7f < len) (hlt : len < 2 ^ 32) :
    1 ≤ lengthWidth len ∧ lengthWidth len ≤ 4 ∧ 256 ^ (lengthWidth len - 1) ≤ len ∧
      len < 256 ^ lengthWidth len := by
  unfold lengthWidth
  split_ifs <;> refine ⟨?_, ?_, ?_, ?_⟩ <;> simp <;> omega

theorem lengthWidth_eq {len width : Nat} (hwidth : 1 ≤ width ∧ width ≤ 4) (hlong : 0x7f < len)
    (hshortest : 256 ^ (width - 1) ≤ len) (hfits : len < 256 ^ width) :
    lengthWidth len = width := by
  obtain ⟨hpos, hle⟩ := hwidth
  unfold lengthWidth
  interval_cases width <;> simp at hshortest hfits <;> split_ifs <;> omega

theorem shiftRight_bytes_ne_zero_iff (len width : Nat) :
    len >>> (width * 8) ≠ 0 ↔ 256 ^ width ≤ len := by
  rw [Nat.shiftRight_eq_div_pow, Nat.mul_comm, Nat.pow_mul, ne_eq, Nat.div_eq_zero_iff]
  have hpos : 0 < (2 ^ 8) ^ width := Nat.pow_pos (by decide)
  rw [not_or, Nat.not_lt]
  exact and_iff_right hpos.ne'

/-! ### The reader -/

inductive Asn1Length where
  | indefinite
  | definite (len numBytes : Nat) (berFound : Bool)

/-- The length part of `cbs_get_any_asn1_element`. -/
def parseAnyAsn1Length (berOk : Bool) (tag : UInt32) (lengthByte : UInt8) (header : Bytes) :
    Option Asn1Length :=
  if lengthByte &&& 0x80 = 0 then some (.definite lengthByte.toNat 0 false)
  else
    let numBytes := (lengthByte &&& 0x7f).toNat
    if berOk ∧ tag &&& CBS_ASN1_CONSTRUCTED ≠ 0 ∧ numBytes = 0 then some .indefinite
    else if numBytes = 0 ∨ numBytes > 4 then none
    else
      match cbsGetU header numBytes with
      | none => none
      | some (len, _) =>
        let berFound := decide (len < 128) || decide (len >>> ((numBytes - 1) * 8) = 0)
        if berFound ∧ !berOk then none else some (.definite len numBytes berFound)

/-- What `cbs_get_any_asn1_element` returns. -/
structure AnyAsn1Element where
  tag : UInt32
  headerLen : Nat
  out : Bytes
  berFound : Bool
  indefinite : Bool

/-- `cbs_get_any_asn1_element`. -/
def cbsGetAnyElement (berOk universalTagOk : Bool) (cbs : Bytes) :
    Option (AnyAsn1Element × Bytes) := do
  let (tag, header) ← parseAsn1Tag cbs universalTagOk
  let (lengthByte, header) ← cbsGetU8 header
  let headerLen := cbs.length - header.length
  match ← parseAnyAsn1Length berOk tag lengthByte header with
  | .indefinite =>
    let (out, rest) ← cbsGetBytes cbs headerLen
    return (⟨tag, headerLen, out, true, true⟩, rest)
  | .definite len numBytes berFound =>
    let (out, rest) ← cbsGetBytes cbs (len + headerLen + numBytes)
    return (⟨tag, headerLen + numBytes, out, berFound, false⟩, rest)

def cbsGetAnyBerAsn1Element (cbs : Bytes) : Option (AnyAsn1Element × Bytes) :=
  cbsGetAnyElement true false cbs

/-- Without `ber_ok` the lengths are the strict ones. -/
theorem parseAnyAsn1Length_strict (lengthByte : UInt8) (header : Bytes) :
    parseAnyAsn1Length false tag lengthByte header =
      (parseAsn1Length lengthByte header).map fun (len, numBytes) =>
        .definite len numBytes false := by
  unfold parseAnyAsn1Length parseAsn1Length
  dsimp only
  generalize (lengthByte &&& 0x7f).toNat = width
  split
  · rfl
  · rw [if_neg (fun h => Bool.false_ne_true h.1)]
    split
    · rfl
    · cases cbsGetU header width with
      | none => rfl
      | some result =>
        dsimp only
        by_cases hshort : result.1 < 128
        · simp [hshort]
        · by_cases hzero : result.1 >>> ((width - 1) * 8) = 0
          · simp [hzero]
          · simp [hshort, hzero]

/-- Without `ber_ok` the reader is the strict one. -/
theorem cbsGetAnyElement_strict (cbs : Bytes) : cbsGetAnyElement false false cbs =
      (cbsGetAnyAsn1Element cbs).map fun ((tag, headerLen, out), rest) =>
        (⟨tag, headerLen, out, false, false⟩, rest) := by
  unfold cbsGetAnyAsn1Element cbsGetAnyElement
  cases parseAsn1Tag cbs false with
  | none => rfl
  | some identifier =>
    simp only [bind_eq_bind, bind_some]
    cases cbsGetU8 identifier.2 with
    | none => rfl
    | some first =>
      simp only [bind_some, parseAnyAsn1Length_strict]
      cases parseAsn1Length first.1 first.2 with
      | none => rfl
      | some length =>
        simp only [bind_some, map_some]
        cases cbsGetBytes cbs (length.1 + (cbs.length - first.2.length) + length.2) <;> rfl

/-- The forms of a definite length: a single octet, or up to four octets after the first. -/
inductive BerLength : Bytes → Nat → Prop where
  | short {len : Nat} (hlen : len ≤ 0x7f) : BerLength [UInt8.ofNat len] len
  | long {len width : Nat} (hpos : 1 ≤ width) (hle : width ≤ 4) (hfits : len < 256 ^ width) :
    BerLength ((UInt8.ofNat width ||| 0x80) :: beBytes width len) len

theorem BerLength.lt {octets : Bytes} {len : Nat} (h : BerLength octets len) : len < 2 ^ 32 := by
  cases h with
  | short hlen => omega
  | long hpos hle hfits =>
    exact hfits.trans_le (Nat.pow_le_pow_right (by decide) hle)

theorem berLength_lengthOctets {len : Nat} (h : len < 2 ^ 32) :
    BerLength (lengthOctets len) len := by
  unfold lengthOctets
  split
  · next hshort => exact .short hshort
  · next hlong =>
    obtain ⟨hpos, hle, -, hfits⟩ := lengthWidth_spec (by omega) h
    exact .long hpos hle hfits

theorem BerLength.cons {octets : Bytes} {len : Nat} (h : BerLength octets len) :
    ∃ lengthByte lengthRest, octets = lengthByte :: lengthRest := by
  cases h with
  | short hlen => exact ⟨_, _, rfl⟩
  | long hpos hle hfits => exact ⟨_, _, rfl⟩

/-- The long form is the shortest one where neither check finds BER. -/
theorem long_eq_lengthOctets_iff {len width : Nat} (hpos : 1 ≤ width) (hle : width ≤ 4)
    (hfits : len < 256 ^ width) :
    (UInt8.ofNat width ||| 0x80) :: beBytes width len = lengthOctets len ↔
      ¬len < 128 ∧ ¬len >>> ((width - 1) * 8) = 0 := by
  have hlt : len < 2 ^ 32 := hfits.trans_le (Nat.pow_le_pow_right (by decide) hle)
  rw [← ne_eq (len >>> _), shiftRight_bytes_ne_zero_iff]
  constructor
  · intro h
    have hlength := congrArg List.length h
    rw [length_cons, length_beBytes] at hlength
    have hlong : ¬len < 128 := by
      intro hshort
      rw [lengthOctets, if_pos (by omega), length_singleton] at hlength
      omega
    obtain ⟨-, -, hmin, -⟩ := lengthWidth_spec (by omega) hlt
    rw [lengthOctets, if_neg (by omega), length_cons, length_beBytes] at hlength
    rw [Nat.succ.inj hlength]
    exact ⟨hlong, hmin⟩
  · rintro ⟨hlong, hmin⟩
    rw [lengthOctets, if_neg (by omega), lengthWidth_eq ⟨hpos, hle⟩ (by omega) hmin hfits]

theorem long_berFound {len width : Nat} (hpos : 1 ≤ width) (hle : width ≤ 4)
    (hfits : len < 256 ^ width) : (decide (len < 128) || decide (len >>> ((width - 1) * 8) = 0)) =
      decide ((UInt8.ofNat width ||| 0x80) :: beBytes width len ≠ lengthOctets len) := by
  have hiff := long_eq_lengthOctets_iff hpos hle hfits
  apply Bool.eq_iff_iff.mpr
  rw [Bool.or_eq_true, decide_eq_true_iff, decide_eq_true_iff, decide_eq_true_iff, ne_eq, hiff,
    not_and_or, not_not, not_not]

/-- **Definite lengths.**  The reader accepts every form where `ber_ok` is set, and reports those
    that are not the shortest. -/
theorem parseAnyAsn1Length_definite {berOk : Bool} {tag : UInt32} {lengthByte : UInt8}
    {header : Bytes} {len numBytes : Nat} {berFound : Bool} :
    parseAnyAsn1Length berOk tag lengthByte header = some (.definite len numBytes berFound) ↔
      (berFound = true → berOk = true) ∧ ∃ octets contents, BerLength octets len ∧
        lengthByte :: header = octets ++ contents ∧
        octets.length = numBytes + 1 ∧ berFound = decide (octets ≠ lengthOctets len) := by
  constructor
  · intro h
    obtain ⟨hlow, hbyte⟩ := octet_cases lengthByte
    unfold parseAnyAsn1Length at h
    by_cases hshort : lengthByte &&& 0x80 = 0
    · rw [if_pos hshort] at h hbyte
      cases h
      have hvalue : lengthByte.toNat ≤ 0x7f := by
        rw [hbyte, UInt8.toNat_ofNat']
        omega
      refine ⟨nofun, [lengthByte], header, ?_, rfl, rfl, ?_⟩
      · have hform := BerLength.short hvalue
        rwa [UInt8.ofNat_toNat] at hform
      · simp [lengthOctets, hvalue]
    rw [if_neg hshort] at h hbyte
    dsimp only at h
    generalize (lengthByte &&& 0x7f).toNat = width at h hbyte
    split at h
    · cases h
    split at h
    · cases h
    next hwidth =>
    split at h
    · cases h
    next len' rest hget =>
    obtain ⟨hfits, rfl⟩ := cbsGetU_eq_some hget
    split at h
    · cases h
    next hok =>
    cases h
    have hfound := @long_berFound len numBytes (by omega) (by omega) hfits
    rw [← hbyte] at hfound
    refine ⟨by simpa using hok, lengthByte :: beBytes numBytes len, rest, ?_, rfl, by simp, ?_⟩
    · rw [hbyte]
      exact .long (by omega) (by omega) hfits
    · exact hfound
  · rintro ⟨hok, octets, contents, hform, hbytes, hlength, rfl⟩
    cases hform with
    | short hlen =>
      rw [singleton_append, List.cons.injEq] at hbytes
      obtain ⟨rfl, rfl⟩ := hbytes
      obtain ⟨hbit, -⟩ := octet_facts ⟨len, by omega⟩
      have hnone : numBytes = 0 := by simpa using hlength.symm
      rw [parseAnyAsn1Length, if_pos hbit, UInt8.toNat_ofNat', hnone,
        Nat.mod_eq_of_lt (by omega)]
      simp [lengthOctets, hlen]
    | @long len width hpos hle hfits =>
      rw [cons_append, List.cons.injEq] at hbytes
      obtain ⟨rfl, rfl⟩ := hbytes
      rw [length_cons, length_beBytes] at hlength
      cases hlength
      obtain ⟨-, -, hbit, hvalue, -, -⟩ := octet_facts ⟨numBytes, by omega⟩
      rw [parseAnyAsn1Length, if_neg hbit]
      dsimp only at hvalue ⊢
      rw [hvalue, if_neg (by omega), if_neg (by omega), cbsGetU_beBytes hfits]
      dsimp only
      rw [long_berFound hpos hle hfits, if_neg]
      rintro ⟨hfound, hnot⟩
      rw [hok hfound] at hnot
      cases hnot

theorem parseAnyAsn1Length_indefinite {tag : UInt32} {lengthByte : UInt8} {header : Bytes} :
    parseAnyAsn1Length true tag lengthByte header = some .indefinite ↔
      lengthByte = 0x80 ∧ Constructed tag := by
  constructor
  · intro h
    obtain ⟨hlow, hbyte⟩ := octet_cases lengthByte
    unfold parseAnyAsn1Length at h
    by_cases hshort : lengthByte &&& 0x80 = 0
    · rw [if_pos hshort] at h
      cases h
    rw [if_neg hshort] at h hbyte
    dsimp only at h
    split at h
    · next hindefinite =>
      rw [hindefinite.2.2] at hbyte
      exact ⟨hbyte, hindefinite.2.1⟩
    · split at h
      · cases h
      · split at h
        · cases h
        · split at h <;> cases h
  · rintro ⟨rfl, hconstructed⟩
    rw [parseAnyAsn1Length, if_neg (by decide)]
    exact if_pos ⟨rfl, hconstructed, rfl⟩

/-! ### BER elements -/

theorem cbsGet_element {tagBytes octets after afterByte out rest : Bytes} {lengthByte : UInt8}
    {len numBytes : Nat} (hafter : lengthByte :: afterByte = octets ++ after)
    (hlength : octets.length = numBytes + 1)
    (hget : cbsGet (tagBytes ++ (cbbAddU8 lengthByte ++ afterByte)) (len +
      ((tagBytes ++ (cbbAddU8 lengthByte ++ afterByte)).length - afterByte.length) + numBytes) =
        some (out, rest)) :
    ∃ contents, contents.length = len ∧ out = tagBytes ++ (octets ++ contents) ∧
      (tagBytes ++ (cbbAddU8 lengthByte ++ afterByte)).length - afterByte.length + numBytes =
        (tagBytes ++ octets).length := by
  obtain ⟨hsplit, hsize⟩ := cbsGet_eq_some hget
  have hlengths := congrArg List.length hsplit
  have hafterLength := congrArg List.length hafter
  have hone : (cbbAddU8 lengthByte).length = 1 := rfl
  simp only [length_append, length_cons] at hlengths hafterLength hsize
  have hjoined : out ++ rest = (tagBytes ++ (octets ++ after.take len)) ++ after.drop len := by
    rw [← hsplit, show cbbAddU8 lengthByte ++ afterByte = octets ++ after from hafter]
    simp
  have hcontents : (after.take len).length = len := by
    rw [length_take]
    omega
  refine ⟨after.take len, hcontents, (List.append_inj hjoined ?_).1, ?_⟩
  · rw [hsize]
    simp only [length_append]
    omega
  · simp only [length_append]
    omega

variable {cbs out rest : Bytes}

/-- **Elements of definite length.** -/
theorem cbsGetAnyElement_definite {berOk : Bool} {tag : UInt32}
    {headerLen : Nat} {berFound : Bool} :
    cbsGetAnyElement berOk false cbs = some (⟨tag, headerLen, out, berFound, false⟩, rest) ↔
      (berFound = true → berOk = true) ∧ TagOk tag ∧ cbs = out ++ rest ∧
        ∃ octets contents, BerLength octets contents.length ∧
          out = asn1TagBytes tag ++ (octets ++ contents) ∧
          headerLen = (asn1TagBytes tag ++ octets).length ∧
          berFound = decide (octets ≠ lengthOctets contents.length) := by
  constructor
  · intro h
    obtain ⟨⟨tag', header⟩, htag, h⟩ := bind_eq_some_iff.mp h
    obtain ⟨⟨lengthByte, afterByte⟩, hbyte, h⟩ := bind_eq_some_iff.mp h
    obtain ⟨length, hlen, h⟩ := bind_eq_some_iff.mp h
    obtain ⟨huniversal, rfl⟩ := parseAsn1Tag_iff.mp htag
    obtain rfl := cbsGetU8_eq_some hbyte
    cases length with
    | indefinite =>
      obtain ⟨⟨element, rest'⟩, -, h⟩ := bind_eq_some_iff.mp h
      cases h
    | definite len numBytes found =>
      obtain ⟨⟨element, rest'⟩, hget, h⟩ := bind_eq_some_iff.mp h
      cases h
      obtain ⟨hok, octets, after, hform, hafter, hlength, rfl⟩ :=
        parseAnyAsn1Length_definite.mp hlen
      obtain ⟨contents, rfl, helement, hheader⟩ := cbsGet_element hafter hlength hget
      exact ⟨hok, huniversal.resolve_left (by decide), (cbsGet_eq_some hget).1, octets, contents,
        hform, helement, hheader, rfl⟩
  · rintro ⟨hok, huniversal, rfl, octets, contents, hform, rfl, rfl, rfl⟩
    obtain ⟨lengthByte, lengthRest, rfl⟩ := hform.cons
    have hcbs : asn1TagBytes tag ++ (lengthByte :: lengthRest ++ contents) ++ rest =
        asn1TagBytes tag ++ lengthByte :: (lengthRest ++ (contents ++ rest)) := by simp
    have htag := (@parseAsn1Tag_iff _ (lengthByte :: (lengthRest ++ (contents ++ rest))) false
      tag).mpr ⟨Or.inr huniversal, hcbs⟩
    have hlen := (@parseAnyAsn1Length_definite berOk tag lengthByte
      (lengthRest ++ (contents ++ rest)) contents.length lengthRest.length _).mpr
        ⟨hok, lengthByte :: lengthRest, contents ++ rest, hform, rfl, rfl, rfl⟩
    have hget := cbsGet_append (asn1TagBytes tag ++ (lengthByte :: lengthRest ++ contents)) rest
    refine bind_of_eq_some htag ?_
    refine bind_of_eq_some rfl ?_
    refine bind_of_eq_some hlen ?_
    have hsize : contents.length + ((asn1TagBytes tag ++ (lengthByte :: lengthRest ++ contents) ++
        rest).length - (lengthRest ++ (contents ++ rest)).length) + lengthRest.length =
          (asn1TagBytes tag ++ (lengthByte :: lengthRest ++ contents)).length := by
      simp only [length_append, length_cons]
      omega
    rw [← hsize] at hget
    refine bind_of_eq_some hget ?_
    simp only [Option.pure_def, Option.some.injEq, Prod.mk.injEq, and_true,
      AnyAsn1Element.mk.injEq, true_and]
    simp only [length_append, length_cons]
    omega

theorem cbsGetAnyBerAsn1Element_definite {tag : UInt32} {headerLen : Nat} {berFound : Bool} :
    cbsGetAnyBerAsn1Element cbs = some (⟨tag, headerLen, out, berFound, false⟩, rest) ↔
      TagOk tag ∧ cbs = out ++ rest ∧ ∃ octets contents, BerLength octets contents.length ∧
          out = asn1TagBytes tag ++ (octets ++ contents) ∧
          headerLen = (asn1TagBytes tag ++ octets).length ∧
          berFound = decide (octets ≠ lengthOctets contents.length) :=
  cbsGetAnyElement_definite.trans (and_iff_right fun _ => rfl)

/-- **Elements of indefinite length.**  The reader returns the header of a constructed element. -/
theorem cbsGetAnyBerAsn1Element_indefinite {tag : UInt32} {headerLen : Nat} {berFound : Bool} :
    cbsGetAnyBerAsn1Element cbs = some (⟨tag, headerLen, out, berFound, true⟩, rest) ↔
      TagOk tag ∧ Constructed tag ∧
        cbs = out ++ rest ∧ out = asn1TagBytes tag ++ [0x80] ∧ headerLen = out.length ∧
        berFound = true := by
  constructor
  · intro h
    obtain ⟨⟨tag', header⟩, htag, h⟩ := bind_eq_some_iff.mp h
    obtain ⟨⟨lengthByte, afterByte⟩, hbyte, h⟩ := bind_eq_some_iff.mp h
    obtain ⟨length, hlen, h⟩ := bind_eq_some_iff.mp h
    obtain ⟨huniversal, rfl⟩ := parseAsn1Tag_iff.mp htag
    obtain rfl := cbsGetU8_eq_some hbyte
    cases length with
    | definite len numBytes found =>
      obtain ⟨⟨element, rest'⟩, -, h⟩ := bind_eq_some_iff.mp h
      cases h
    | indefinite =>
      obtain ⟨⟨element, rest'⟩, hget, h⟩ := bind_eq_some_iff.mp h
      cases h
      obtain ⟨rfl, hconstructed⟩ := parseAnyAsn1Length_indefinite.mp hlen
      obtain ⟨hsplit, hsize⟩ := cbsGet_eq_some hget
      have hcbs : asn1TagBytes tag ++ (cbbAddU8 0x80 ++ afterByte) =
          (asn1TagBytes tag ++ [0x80]) ++ afterByte := by
        rw [append_assoc]
        rfl
      have hlengths := congrArg List.length hcbs
      simp only [length_append, length_singleton] at hlengths hsize
      have hjoined := hsplit.symm.trans hcbs
      obtain ⟨rfl, rfl⟩ := List.append_inj hjoined (by
        rw [hsize, length_append, length_singleton]
        omega)
      exact ⟨huniversal.resolve_left (by decide), hconstructed, hsplit, rfl, by
        rw [hcbs, length_append, Nat.add_sub_cancel], rfl⟩
  · rintro ⟨huniversal, hconstructed, rfl, rfl, rfl, rfl⟩
    have hcbs : asn1TagBytes tag ++ [0x80] ++ rest = asn1TagBytes tag ++ 0x80 :: rest := by simp
    have htag := (@parseAsn1Tag_iff _ (0x80 :: rest) false tag).mpr ⟨Or.inr huniversal, hcbs⟩
    have hlen := (@parseAnyAsn1Length_indefinite tag 0x80 rest).mpr ⟨rfl, hconstructed⟩
    have hget := cbsGet_append (asn1TagBytes tag ++ [0x80]) rest
    refine bind_of_eq_some htag ?_
    refine bind_of_eq_some rfl ?_
    refine bind_of_eq_some hlen ?_
    have hsize : (asn1TagBytes tag ++ [0x80] ++ rest).length - rest.length =
        (asn1TagBytes tag ++ [0x80]).length := by
      rw [length_append]
      omega
    rw [← hsize] at hget
    refine bind_of_eq_some hget ?_
    rw [hsize]
    rfl

/-! ### DER elements -/

def derElement (contents : Bytes) : Bytes :=
  asn1TagBytes tag ++ (lengthOctets contents.length ++ contents)

theorem cbbAddAsn1_eq (contents : Bytes) : cbbAddAsn1 tag contents =
      if contents.length ≤ 0xfffffffe then some (derElement tag contents) else none := by
  rw [cbbAddAsn1, asn1LengthBytes_eq]
  split <;> rfl

/-- **The element reader.**  It accepts exactly the DER encodings of elements shorter than
    `2 ^ 32` bytes whose tag is not [UNIVERSAL 0]. -/
theorem cbsGetAnyAsn1Element_iff {tag : UInt32} {headerLen : Nat} :
    cbsGetAnyAsn1Element cbs = some ((tag, headerLen, out), rest) ↔ TagOk tag ∧ cbs = out ++ rest ∧
        ∃ contents, contents.length < 2 ^ 32 ∧ out = derElement tag contents ∧
          headerLen = (asn1TagBytes tag ++ lengthOctets contents.length).length := by
  have hstrict : cbsGetAnyAsn1Element cbs = some ((tag, headerLen, out), rest) ↔
      cbsGetAnyElement false false cbs = some (⟨tag, headerLen, out, false, false⟩, rest) := by
    rw [cbsGetAnyElement_strict]
    cases cbsGetAnyAsn1Element cbs <;> simp [Prod.ext_iff, and_assoc]
  rw [hstrict, cbsGetAnyElement_definite]
  constructor
  · rintro ⟨-, htag, hcbs, octets, contents, hform, rfl, rfl, hfound⟩
    obtain rfl : octets = lengthOctets contents.length := by simpa using hfound
    exact ⟨htag, hcbs, contents, hform.lt, rfl, rfl⟩
  · rintro ⟨htag, hcbs, contents, hlt, rfl, rfl⟩
    exact ⟨nofun, htag, hcbs, lengthOctets contents.length, contents, berLength_lengthOctets hlt,
      rfl, rfl, by simp⟩

/-- `CBS_get_any_asn1` accepts the same and drops the header. -/
theorem cbsGetAnyAsn1_iff {cbs contents rest : Bytes} {tag : UInt32} :
    cbsGetAnyAsn1 cbs = some ((tag, contents), rest) ↔ TagOk tag ∧ contents.length < 2 ^ 32 ∧
        cbs = derElement tag contents ++ rest := by
  have hskip : ∀ contents, cbsSkip (derElement tag contents)
      (asn1TagBytes tag ++ lengthOctets contents.length).length = some contents := by
    intro contents
    rw [cbsSkip, derElement, ← append_assoc, cbsGet_append]
    rfl
  constructor
  · intro h
    obtain ⟨⟨⟨tag', headerLen, out⟩, rest'⟩, helement, h⟩ := bind_eq_some_iff.mp h
    obtain ⟨contents', hcontents, h⟩ := bind_eq_some_iff.mp h
    cases h
    obtain ⟨huniversal, hcbs, contents', hlt, rfl, rfl⟩ := cbsGetAnyAsn1Element_iff.mp helement
    rw [hskip] at hcontents
    cases hcontents
    exact ⟨huniversal, hlt, hcbs⟩
  · rintro ⟨huniversal, hlt, hcbs⟩
    have helement := cbsGetAnyAsn1Element_iff.mpr ⟨huniversal, hcbs, contents, hlt, rfl, rfl⟩
    refine bind_of_eq_some helement ?_
    refine bind_of_eq_some (hskip contents) ?_
    rfl

/-- **`CBS_get_asn1`** reads the element of one tag. -/
theorem cbsGetAsn1_iff {cbs contents rest : Bytes} {tag : UInt32} :
    cbsGetAsn1 tag cbs = some (contents, rest) ↔ TagOk tag ∧ contents.length < 2 ^ 32 ∧
        cbs = derElement tag contents ++ rest := by
  rw [← cbsGetAnyAsn1_iff]
  unfold cbsGetAsn1 cbsGetAnyAsn1
  rcases cbsGetAnyAsn1Element cbs with _ | ⟨⟨tag', headerLen, out⟩, rest'⟩
  · simp
  · simp only [bind_eq_bind, bind_some]
    generalize cbsSkip out headerLen = skipped
    by_cases htag : tag' = tag
    · subst htag
      rcases skipped with _ | contents' <;> simp
    · rcases skipped with _ | contents' <;> simp [htag]

/-- **The DER element codec.**  What `CBB_add_asn1` writes is read back with the exact header
    length, whatever follows it.  What `CBS_get_any_asn1` accepts is what `CBB_add_asn1` writes for
    the tag and contents it returns, unless the contents have the one length that the writer
    refuses; and in every case the tag and the contents determine the bytes that were consumed. -/
theorem der_element_codec :
    (∀ (tag : UInt32) (contents suffix : Bytes), tag &&& ~~~CBS_ASN1_CONSTRUCTED ≠ 0 →
      contents.length ≤ 0xfffffffe → ∃ element headerLen, cbbAddAsn1 tag contents = some element ∧
        cbsGetAnyAsn1Element (element ++ suffix) = some ((tag, headerLen, element), suffix) ∧
        headerLen + contents.length = element.length ∧ element.drop headerLen = contents) ∧
    (∀ (cbs contents rest : Bytes) (tag : UInt32),
      cbsGetAnyAsn1 cbs = some ((tag, contents), rest) → contents.length ≠ 0xffffffff →
      ∃ element, cbbAddAsn1 tag contents = some element ∧ cbs = element ++ rest) ∧
    (∀ (cbs cbs' contents rest rest' : Bytes) (tag : UInt32),
      cbsGetAnyAsn1 cbs = some ((tag, contents), rest) →
      cbsGetAnyAsn1 cbs' = some ((tag, contents), rest') →
      ∃ element, cbs = element ++ rest ∧ cbs' = element ++ rest') := by
  refine ⟨?_, ?_, ?_⟩
  · intro tag contents suffix huniversal hlength
    refine ⟨derElement tag contents, (asn1TagBytes tag ++ lengthOctets contents.length).length,
      ?_, ?_, ?_, ?_⟩
    · rw [cbbAddAsn1_eq, if_pos hlength]
    · apply cbsGetAnyAsn1Element_iff.mpr
      exact ⟨huniversal, rfl, contents, by omega, rfl, rfl⟩
    · rw [derElement, ← append_assoc, ← length_append]
    · rw [derElement, ← append_assoc, drop_left]
  · intro cbs contents rest tag h hlength
    obtain ⟨-, hlt, hcbs⟩ := cbsGetAnyAsn1_iff.mp h
    refine ⟨derElement tag contents, ?_, hcbs⟩
    rw [cbbAddAsn1_eq, if_pos (by omega)]
  · intro cbs cbs' contents rest rest' tag h h'
    obtain ⟨-, -, hcbs⟩ := cbsGetAnyAsn1_iff.mp h
    obtain ⟨-, -, hcbs'⟩ := cbsGetAnyAsn1_iff.mp h'
    exact ⟨derElement tag contents, hcbs, hcbs'⟩

/-- The element `[CONTEXT-SPECIFIC 31]` with one octet, in the high-tag-number form. -/
theorem der_element_codec_context_31 :
    ∃ element headerLen, cbbAddAsn1 0x8000001f [7] = some element ∧
      cbsGetAnyAsn1Element (element ++ [1, 2]) = some ((0x8000001f, headerLen, element), [1, 2]) ∧
      headerLen + 1 = element.length ∧ element.drop headerLen = [7] :=
  der_element_codec.1 0x8000001f [7] [1, 2] (by decide) (by decide)

/-- An element of `0xffffffff` octets is read, and cannot be written. -/
theorem der_element_too_long_to_write :
    cbsGetAnyAsn1 (derElement CBS_ASN1_OCTETSTRING (List.replicate 0xffffffff 0)) =
        some ((CBS_ASN1_OCTETSTRING, List.replicate 0xffffffff 0), []) ∧
      cbbAddAsn1 CBS_ASN1_OCTETSTRING (List.replicate 0xffffffff 0) = none := by
  have hlength : (List.replicate 0xffffffff (0 : UInt8)).length = 0xffffffff :=
    length_replicate
  constructor
  · rw [cbsGetAnyAsn1_iff, hlength, append_nil]
    exact ⟨by decide, by decide, rfl⟩
  · rw [cbbAddAsn1_eq, hlength]
    exact if_neg (by decide)

end AwsLc
