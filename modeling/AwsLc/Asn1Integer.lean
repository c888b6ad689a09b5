import AwsLc.Asn1Types

/-!
# The INTEGER codec (`cbs.c`, `cbb.c`)

The contents of an INTEGER are the shortest two's-complement form of the number:
`CBS_is_valid_asn1_integer` refuses contents whose first nine bits are all equal.  With
that, `CBS_get_asn1_uint64` and `CBS_get_asn1_int64` accept exactly what the writers of
the two types produce.
-/

namespace AwsLc

open AwsLc.BigEndian List

/-- Without its leading zeros a byte string is the numeral of its value. -/
theorem digits_beNat (bytes : Bytes) :
    Nat.digits 256 (beNat bytes) = ((bytes.dropWhile (· = 0)).reverse.map UInt8.toNat) := by
  rw [← beNat_dropWhile_zero, beNat_eq_ofDigits]
  apply Nat.digits_ofDigits 256 (by decide)
  · intro digit hdigit
    obtain ⟨byte, -, rfl⟩ := mem_map.mp hdigit
    exact byte.toNat_lt
  · intro hne
    rw [getLast_map, getLast_reverse]
    intro hzero
    have hhead := head_dropWhile_not (· = 0) (l := bytes) (by simpa using hne)
    exact absurd (UInt8.toNat_inj.mp hzero) (by simpa using hhead)

theorem dropWhile_zero_eq {bytes bytes' : Bytes} (h : beNat bytes = beNat bytes') :
    bytes.dropWhile (· = 0) = bytes'.dropWhile (· = 0) := by
  have hdigits := digits_beNat bytes
  rw [h, digits_beNat bytes'] at hdigits
  have hinjective : Function.Injective UInt8.toNat := fun _ _ => UInt8.toNat_inj.mp
  exact (reverse_injective (map_injective_iff.mpr hinjective hdigits)).symm

/-! ### Unsigned integers -/

variable {contents : Bytes}

/-- Valid contents of a non-negative number are those that the writer produces. -/
theorem asn1Uint64Contents_of_valid {value : UInt64}
    (hvalid : cbsIsValidAsn1Integer contents = some false) (hvalue : value.toNat = beNat contents) :
    asn1Uint64Contents value = contents := by
  have hstrip : (beBytes 8 value.toNat).dropWhile (· = 0) = contents.dropWhile (· = 0) := by
    apply dropWhile_zero_eq
    rw [beNat_beBytes_of_lt value.toNat_lt, hvalue]
  unfold asn1Uint64Contents
  rw [hstrip]
  rcases contents with _ | ⟨first, _ | ⟨second, rest⟩⟩
  · cases hvalid
  · simp only [cbsIsValidAsn1Integer, Option.some.injEq, decide_eq_false_iff_not, not_not]
      at hvalid
    by_cases hzero : first = 0
    · simp [hzero]
    · simp [hzero, hvalid]
  · rw [cbsIsValidAsn1Integer] at hvalid
    split at hvalid
    · cases hvalid
    next hminimal =>
    simp only [Option.some.injEq, decide_eq_false_iff_not, not_not] at hvalid
    rw [not_or] at hminimal
    by_cases hzero : first = 0
    · have hhigh : second &&& 0x80 ≠ 0 := fun hlow => hminimal.1 ⟨hzero, hlow⟩
      have hne : second ≠ 0 := by
        rintro rfl
        exact hhigh rfl
      simp [hzero, hne, hhigh]
    · simp [hzero, hvalid]

/-- **`uint64_t` integers.** -/
theorem cbsGetAsn1Uint64_iff {cbs rest : Bytes} {value : UInt64} :
    cbsGetAsn1Uint64 cbs = some (value, rest) ↔
      ∃ bytes, cbbAddAsn1Uint64 value = some bytes ∧ cbs = bytes ++ rest := by
  constructor
  · intro h
    obtain ⟨⟨contents, rest'⟩, hget, h⟩ := Option.bind_eq_some_iff.mp h
    dsimp only at h
    split at h
    · cases h
    next hvalid =>
    rw [not_not] at hvalid
    obtain ⟨value', hvalue, h⟩ := Option.bind_eq_some_iff.mp h
    cases h
    have hnumber := asn1Uint64Value_iff.mp hvalue
    rw [UInt64.toNat_zero, Nat.zero_mul, Nat.zero_add] at hnumber
    have hcontents := asn1Uint64Contents_of_valid hvalid hnumber
    have hlength := length_asn1Uint64Contents value
    obtain ⟨-, -, hcbs⟩ := cbsGetAsn1_iff.mp hget
    refine ⟨derElement CBS_ASN1_INTEGER contents, ?_, hcbs⟩
    rw [cbbAddAsn1Uint64, cbbAddAsn1_eq, hcontents, if_pos]
    rw [← hcontents]
    omega
  · rintro ⟨bytes, hbytes, rfl⟩
    exact cbsGetAsn1Uint64_reads hbytes rest

/-! ### Signed integers -/

theorem validInteger_negative (h : cbsIsValidAsn1Integer contents = some true) :
    ∃ first rest, contents = first :: rest ∧ first &&& 0x80 ≠ 0 ∧
      dropSignExtension contents = contents := by
  rcases contents with _ | ⟨first, _ | ⟨second, rest⟩⟩
  · cases h
  · simp only [cbsIsValidAsn1Integer, Option.some.injEq, decide_eq_true_eq] at h
    exact ⟨first, [], rfl, h, rfl⟩
  · rw [cbsIsValidAsn1Integer] at h
    split at h
    · cases h
    next hminimal =>
    simp only [Option.some.injEq, decide_eq_true_eq] at h
    rw [not_or] at hminimal
    exact ⟨first, second :: rest, rfl, h, if_neg hminimal.2⟩

theorem dropSignExtension_cons {second : UInt8} (rest : Bytes) (hsign : second &&& 0x80 ≠ 0) :
    dropSignExtension (0xff :: second :: rest) = dropSignExtension (second :: rest) := by
  rw [dropSignExtension, if_pos ⟨rfl, hsign⟩]

theorem dropSignExtension_replicate (h : cbsIsValidAsn1Integer contents = some true) (count : Nat) :
    dropSignExtension (replicate count 0xff ++ contents) = contents := by
  obtain ⟨first, rest, rfl, hsign, hdrop⟩ := validInteger_negative h
  induction count with
  | zero => exact hdrop
  | succ count ih =>
    rcases count with _ | count
    · exact (dropSignExtension_cons rest hsign).trans hdrop
    · exact (dropSignExtension_cons _ (by decide)).trans ih

theorem length_extended (hlength : contents.length ≤ 8) (signExtend : UInt8) :
    (replicate (8 - contents.length) signExtend ++ contents).length = 8 := by
  rw [length_append, length_replicate]
  omega

theorem extended_toNat {extended : Bytes} (hlength : extended.length = 8) :
    (UInt64.ofNat (beNat extended)).toInt64.toUInt64.toNat = beNat extended := by
  have hlt := beNat_lt extended
  rw [hlength] at hlt
  exact UInt64.toNat_ofNat_of_lt' hlt

theorem beNat_lt_of_nonnegative (h : cbsIsValidAsn1Integer contents = some false) :
    beNat contents < 128 * 256 ^ (contents.length - 1) := by
  rcases contents with _ | ⟨first, rest⟩
  · cases h
  have hsign : ¬first &&& 0x80 ≠ 0 := by
    rcases rest with _ | ⟨second, rest⟩
    · simpa [cbsIsValidAsn1Integer] using h
    · rw [cbsIsValidAsn1Integer] at h
      split at h
      · cases h
      · simpa using h
  rw [signBit_iff, Nat.not_le] at hsign
  have hrest := beNat_lt rest
  have hfirst : first.toNat * 256 ^ rest.length ≤ 127 * 256 ^ rest.length :=
    Nat.mul_le_mul_right _ (by omega)
  rw [beNat_cons, length_cons, Nat.add_sub_cancel]
  omega

/-- The extended contents of a negative number begin with its sign. -/
theorem extended_first {extended : Bytes} {count : Nat}
    (h : cbsIsValidAsn1Integer contents = some true)
    (hextended : replicate count (if true then (0xff : UInt8) else 0) ++ contents = extended) :
    ∃ first rest, extended = first :: rest ∧ first &&& 0x80 ≠ 0 := by
  obtain ⟨first, rest, rfl, hsign, -⟩ := validInteger_negative h
  subst hextended
  rcases count with _ | count
  · exact ⟨first, rest, rfl, hsign⟩
  · exact ⟨0xff, _, rfl, by decide⟩

/-- A valid number of at most eight octets is written as its contents. -/
theorem cbbAddAsn1Int64_of_valid {isNegative : Bool}
    (hvalid : cbsIsValidAsn1Integer contents = some isNegative) (hlength : contents.length ≤ 8) :
    cbbAddAsn1Int64 (UInt64.ofNat (beNat (replicate (8 - contents.length)
        (if isNegative then 0xff else 0) ++ contents))).toInt64 =
      cbbAddAsn1 CBS_ASN1_INTEGER contents := by
  generalize hextended : replicate (8 - contents.length)
    (if isNegative then (0xff : UInt8) else 0) ++ contents = extended
  have height : extended.length = 8 := by
    rw [← hextended]
    exact length_extended hlength _
  have hvalue := extended_toNat height
  cases isNegative with
  | false =>
    have hcontents : beNat extended = beNat contents := by
      rw [← hextended]
      exact beNat_replicate_zero_append _ _
    have hsmall := beNat_lt_of_nonnegative hvalid
    have hbound : 256 ^ (contents.length - 1) ≤ 256 ^ 7 :=
      Nat.pow_le_pow_right (by decide) (by omega)
    rw [cbbAddAsn1Int64, if_pos ((int64_nonneg_iff _).mpr (by rw [hvalue, hcontents]; omega)),
      cbbAddAsn1Uint64, asn1Uint64Contents_of_valid hvalid (hvalue.trans hcontents)]
  | true =>
    have hlarge : 2 ^ 63 ≤ beNat extended := by
      obtain ⟨first, rest, rfl, hsign⟩ := extended_first hvalid hextended
      rw [signBit_iff] at hsign
      rw [length_cons] at height
      rw [beNat_cons, show rest.length = 7 by omega]
      omega
    have hbytes : beBytes 8 (beNat extended) = extended := by
      rw [← height]
      exact beBytes_beNat extended
    rw [cbbAddAsn1Int64, if_neg (fun h => by have := (int64_nonneg_iff _).mp h; omega), hvalue,
      hbytes, ← hextended]
    congr 1
    exact dropSignExtension_replicate hvalid _

/-- **`int64_t` integers.** -/
theorem cbsGetAsn1Int64_iff {cbs rest : Bytes} {value : Int64} :
    cbsGetAsn1Int64 cbs = some (value, rest) ↔
      ∃ bytes, cbbAddAsn1Int64 value = some bytes ∧ cbs = bytes ++ rest := by
  constructor
  · intro h
    obtain ⟨⟨contents, rest'⟩, hget, h⟩ := Option.bind_eq_some_iff.mp h
    obtain ⟨isNegative, hvalid, h⟩ := Option.bind_eq_some_iff.mp h
    dsimp only at h
    split at h
    · cases h
    next hlength =>
    cases h
    obtain ⟨-, -, hcbs⟩ := cbsGetAsn1_iff.mp hget
    refine ⟨derElement CBS_ASN1_INTEGER contents, ?_, hcbs⟩
    rw [cbbAddAsn1Int64_of_valid hvalid (by omega), cbbAddAsn1_eq, if_pos (by omega)]
  · rintro ⟨bytes, hbytes, rfl⟩
    exact cbsGetAsn1Int64_reads hbytes rest

/-- **The INTEGER codec.**  Every number is written, and read back whatever follows.  The
    readers accept a byte string and return a number exactly if it begins with what the
    writer produces for the number. -/
theorem asn1_integer_codec : (∀ value : Int64, ∃ bytes, cbbAddAsn1Int64 value = some bytes ∧
      cbsGetAsn1Int64 bytes = some (value, [])) ∧
    (∀ value : UInt64, ∃ bytes, cbbAddAsn1Uint64 value = some bytes ∧
      cbsGetAsn1Uint64 bytes = some (value, [])) ∧
    (∀ (cbs rest : Bytes) (value : Int64), cbsGetAsn1Int64 cbs = some (value, rest) ↔
      ∃ bytes, cbbAddAsn1Int64 value = some bytes ∧ cbs = bytes ++ rest) ∧
    (∀ (cbs rest : Bytes) (value : UInt64), cbsGetAsn1Uint64 cbs = some (value, rest) ↔
      ∃ bytes, cbbAddAsn1Uint64 value = some bytes ∧ cbs = bytes ++ rest) := by
  refine ⟨?_, ?_, fun _ _ _ => cbsGetAsn1Int64_iff, fun _ _ _ => cbsGetAsn1Uint64_iff⟩
  · intro value
    obtain ⟨bytes, hbytes, -⟩ := exists_cbbAddAsn1Int64 value
    exact ⟨bytes, hbytes, cbsGetAsn1Int64_iff.mpr ⟨bytes, hbytes, (append_nil bytes).symm⟩⟩
  · intro value
    obtain ⟨bytes, hbytes, -⟩ := exists_cbbAddAsn1Uint64 value
    exact ⟨bytes, hbytes, cbsGetAsn1Uint64_iff.mpr ⟨bytes, hbytes, (append_nil bytes).symm⟩⟩

end AwsLc
