import AwsLc.Asn1Types

/-!
# Sequences of optional elements (`cbs.c`)

The serializers of a connection write most of its state as elements with ascending context-specific
tags, each of which may be missing.  A reader asks for the tags in the same order, and recognizes a
missing element by the tag of the one that follows.
-/

namespace AwsLc

open List Option

/-! ### Writing -/

/-- The tag of an optional element and its contents, if it is present. -/
abbrev OptionalField := UInt32 × Option Bytes

def cbbAddFields : List OptionalField → Option Bytes
  | [] => some []
  | (_, none) :: fields => cbbAddFields fields
  | (tag, some contents) :: fields => do
    let element ← cbbAddAsn1 tag contents
    let rest ← cbbAddFields fields
    return element ++ rest

/-- The contents of an element that is written as `true` if a flag is set. -/
def flagContents (flag : Bool) : Option (Option Bytes) :=
  if flag then (cbbAddAsn1Bool true).map some else some none

def flagChild (flag : Bool) : Option Bytes := if flag then some [1, 1, 0xff] else none

def contextTag (number : UInt32) : UInt32 :=
  CBS_ASN1_CONSTRUCTED ||| CBS_ASN1_CONTEXT_SPECIFIC ||| number

def nonemptyBytes (bytes : Bytes) : Option Bytes := if bytes = [] then none else some bytes

/-! ### Reading -/

variable (tag : UInt32)

def cbsGetOptionalAsn1OctetString (cbs : Bytes) : Option (Option Bytes × Bytes) := do
  let (child, rest) ← cbsGetOptionalAsn1 tag cbs
  match child with
  | none => some (none, rest)
  | some child =>
    let (out, childRest) ← cbsGetAsn1 CBS_ASN1_OCTETSTRING child
    if childRest ≠ [] then none else some (some out, rest)

def cbsGetOptionalAsn1Uint64 (defaultValue : UInt64) (cbs : Bytes) : Option (UInt64 × Bytes) := do
  let (child, rest) ← cbsGetOptionalAsn1 tag cbs
  match child with
  | none => some (defaultValue, rest)
  | some child =>
    let (out, childRest) ← cbsGetAsn1Uint64 child
    if childRest ≠ [] then none else some (out, rest)

def parseOptionalString (cbs : Bytes) : Option (Option CString × Bytes) := do
  let (value, cbs) ← cbsGetOptionalAsn1OctetString tag cbs
  match value with
  | none => some (none, cbs)
  | some value => if h : 0 ∉ value then some (some ⟨value, h⟩, cbs) else none

def ssl3StateParseOctetString (cbs : Bytes) : Option (Bytes × Bytes) := do
  let (value, cbs) ← cbsGetOptionalAsn1OctetString tag cbs
  return (value.getD [], cbs)

/-! ### The round trip -/

/-- Asking for the tags of `fields` one after the other yields their contents and leaves nothing. -/
def Readable : List OptionalField → Bytes → Prop
  | [], bytes => bytes = []
  | (tag, contents) :: fields, bytes =>
    ∃ rest, cbsGetOptionalAsn1 tag bytes = some (contents, rest) ∧ Readable fields rest

variable {bytes : Bytes} {fields : List OptionalField}

theorem cbbAddFields_present {tag : UInt32} {contents : Bytes}
    (h : cbbAddFields ((tag, some contents) :: fields) = some bytes) :
    ∃ element rest, cbbAddAsn1 tag contents = some element ∧ cbbAddFields fields = some rest ∧
      bytes = element ++ rest := by
  obtain ⟨element, helement, h⟩ := bind_eq_some_iff.mp h
  obtain ⟨rest, hrest, h⟩ := bind_eq_some_iff.mp h
  cases h
  exact ⟨element, rest, helement, hrest, rfl⟩

/-- An optional `true` is such an element. -/
theorem cbbAddFields_optionalTrue {tag : UInt32} {flag : Bool} {first rest : Bytes}
    (h : cbbAddOptionalTrue tag flag = some first) (hrest : cbbAddFields fields = some rest) :
    cbbAddFields ((tag, flagChild flag) :: fields) = some (first ++ rest) := by
  cases flag with
  | false =>
    cases h
    exact hrest
  | true =>
    have hfirst : cbbAddAsn1 tag [1, 1, 0xff] = some first := h
    simp [flagChild, cbbAddFields, hfirst, hrest]

/-- A tag that no element carries does not come next. -/
theorem cbsPeekAsn1Tag_cbbAddFields (h : cbbAddFields fields = some bytes)
    (htags : ∀ field ∈ fields, TagReads field.1) {tag : UInt32}
    (habsent : ∀ field ∈ fields, field.1 ≠ tag) : cbsPeekAsn1Tag bytes tag = false := by
  induction fields generalizing bytes with
  | nil =>
    cases h
    rfl
  | cons field fields ih =>
    obtain ⟨fieldTag, contents⟩ := field
    cases contents with
    | none =>
      apply ih h
      · intro field hfield
        exact htags field (mem_cons_of_mem _ hfield)
      · intro field hfield
        exact habsent field (mem_cons_of_mem _ hfield)
    | some contents =>
      obtain ⟨element, rest, helement, -, rfl⟩ := cbbAddFields_present h
      rw [cbsPeekAsn1Tag_cbbAddAsn1 (htags _ mem_cons_self) helement]
      exact decide_eq_false (habsent _ mem_cons_self)

/-- **Optional elements are read back**, if their tags are distinct. -/
theorem readable_cbbAddFields (h : cbbAddFields fields = some bytes)
    (htags : ∀ field ∈ fields, TagReads field.1) (hdistinct : (fields.map Prod.fst).Nodup) :
    Readable fields bytes := by
  induction fields generalizing bytes with
  | nil =>
    cases h
    rfl
  | cons field fields ih =>
    obtain ⟨tag, contents⟩ := field
    rw [map_cons, nodup_cons] at hdistinct
    have htags' : ∀ field ∈ fields, TagReads field.1 := fun field hfield =>
      htags field (mem_cons_of_mem _ hfield)
    cases contents with
    | none =>
      have habsent : ∀ field ∈ fields, field.1 ≠ tag := by
        intro field hfield heq
        apply hdistinct.1
        show tag ∈ fields.map Prod.fst
        rw [← heq]
        exact List.mem_map_of_mem hfield
      change cbbAddFields fields = some bytes at h
      exact ⟨bytes, cbsGetOptionalAsn1_absent (cbsPeekAsn1Tag_cbbAddFields h htags' habsent),
        ih h htags' hdistinct.2⟩
    | some contents =>
      obtain ⟨element, rest, helement, hrest, rfl⟩ := cbbAddFields_present h
      exact ⟨rest, cbsGetOptionalAsn1_present (htags _ mem_cons_self) helement rest,
        ih hrest htags' hdistinct.2⟩

theorem tagReads_contextTag (number : Fin 31) : TagReads (contextTag (.ofNat number)) := by
  rw [tagReads_iff]
  revert number
  decide

theorem contextTag_inj : ∀ a b : Fin 31,
    contextTag (.ofNat a) = contextTag (.ofNat b) → a = b := by decide

theorem readable_of_contextTags {numbers : List Nat} (hsmall : ∀ number ∈ numbers, number < 31)
    (hdistinct : numbers.Nodup)
    (htags : fields.map Prod.fst = numbers.map fun number => contextTag (.ofNat number))
    (h : cbbAddFields fields = some bytes) : Readable fields bytes := by
  apply readable_cbbAddFields h
  · intro field hfield
    have hmem : field.1 ∈ fields.map Prod.fst := List.mem_map_of_mem hfield
    rw [htags, List.mem_map] at hmem
    obtain ⟨number, hnumber, hfield⟩ := hmem
    rw [← hfield]
    exact tagReads_contextTag ⟨number, hsmall number hnumber⟩
  · rw [htags]
    apply hdistinct.map_on
    intro a ha b hb heq
    have hsame := contextTag_inj ⟨a, hsmall a ha⟩ ⟨b, hsmall b hb⟩ heq
    exact congrArg Fin.val hsame

def fieldsBound : List OptionalField → Nat
  | [] => 0
  | (_, contents) :: fields => (contents.getD []).length + 16 + fieldsBound fields

theorem fieldsBound_append (first second : List OptionalField) :
    fieldsBound (first ++ second) = fieldsBound first + fieldsBound second := by
  induction first with
  | nil => exact (Nat.zero_add _).symm
  | cons field first ih =>
    rw [cons_append, fieldsBound, fieldsBound, ih]
    omega

theorem exists_cbbAddFields (h : fieldsBound fields ≤ 0xfffffffe) :
    ∃ bytes, cbbAddFields fields = some bytes ∧ bytes.length ≤ fieldsBound fields := by
  induction fields with
  | nil => exact ⟨[], rfl, Nat.le_refl _⟩
  | cons field fields ih =>
    obtain ⟨tag, contents⟩ := field
    rw [fieldsBound] at h ⊢
    obtain ⟨rest, hrest, hlength⟩ := ih (by omega)
    cases contents with
    | none => exact ⟨rest, hrest, by omega⟩
    | some contents =>
      rw [getD_some] at h ⊢
      obtain ⟨element, helement, helementLength⟩ := exists_cbbAddAsn1 tag
        (Nat.le_refl contents.length) (by omega)
      refine ⟨element ++ rest, bind_of_eq_some helement (bind_of_eq_some hrest rfl), ?_⟩
      rw [length_append]
      omega

theorem exists_octetString {data : Option Bytes} {bound : Nat}
    (h : (data.getD []).length ≤ bound) (hbound : bound ≤ 0xfffffffe) :
    ∃ child, data.mapM cbbAddAsn1OctetString = some child ∧
      (child.getD []).length ≤ bound + 16 := by
  cases data with
  | none => exact ⟨none, rfl, Nat.zero_le _⟩
  | some data =>
    obtain ⟨contents, hcontents, hlength⟩ := exists_cbbAddAsn1 CBS_ASN1_OCTETSTRING h hbound
    exact ⟨some contents, map_eq_some_iff.mpr ⟨contents, hcontents, rfl⟩, hlength⟩

theorem flagContents_eq (flag : Bool) : flagContents flag = some (flagChild flag) := by
  cases flag <;> rfl

theorem exists_flagContents (flag : Bool) :
    ∃ child, flagContents flag = some child ∧ (child.getD []).length ≤ 3 :=
  ⟨_, flagContents_eq flag, by cases flag <;> decide⟩

variable {tag : UInt32} {bytes rest contents : Bytes}

theorem nonemptyBytes_getD (bytes : Bytes) : (nonemptyBytes bytes).getD [] = bytes := by
  unfold nonemptyBytes
  split
  · next h => exact h.symm
  · rfl

variable {child : Option Bytes}

theorem cbsGetOptionalAsn1OctetString_eq {data : Option Bytes}
    (h : cbsGetOptionalAsn1 tag bytes = some (child, rest))
    (hchild : data.mapM cbbAddAsn1OctetString = some child) :
    cbsGetOptionalAsn1OctetString tag bytes = some (data, rest) := by
  unfold cbsGetOptionalAsn1OctetString
  rw [h]
  cases data with
  | none =>
    cases hchild
    rfl
  | some data =>
    obtain ⟨contents, hcontents, hchild⟩ := map_eq_some_iff.mp hchild
    cases hchild
    have hread := cbsGetAsn1_cbbAddAsn1 tagReads_octetString hcontents []
    rw [append_nil] at hread
    simp [hread]

theorem cbsGetOptionalAsn1Uint64_eq {value : UInt64} (defaultValue : UInt64)
    (h : cbsGetOptionalAsn1 tag bytes = some (some contents, rest))
    (hcontents : cbbAddAsn1Uint64 value = some contents) :
    cbsGetOptionalAsn1Uint64 tag defaultValue bytes = some (value, rest) := by
  have hread := cbsGetAsn1Uint64_reads hcontents []
  rw [append_nil] at hread
  simp [cbsGetOptionalAsn1Uint64, h, hread]

theorem cbsGetOptionalAsn1Bool_eq {value : Bool} (defaultValue : Bool)
    (h : cbsGetOptionalAsn1 tag bytes = some (some contents, rest))
    (hcontents : cbbAddAsn1Bool value = some contents) :
    cbsGetOptionalAsn1Bool tag defaultValue bytes = some (value, rest) := by
  have hread := cbsGetAsn1_cbbAddAsn1 tagReads_boolean hcontents []
  rw [append_nil] at hread
  cases value <;> simp [cbsGetOptionalAsn1Bool, h, hread, cbbAddU8]

/-- A flag that is set is read as set, and one that is not set as the default. -/
theorem cbsGetOptionalAsn1Bool_flagChild {flag : Bool}
    (h : cbsGetOptionalAsn1 tag bytes = some (flagChild flag, rest)) (defaultValue : Bool) :
    cbsGetOptionalAsn1Bool tag defaultValue bytes = some (flag || defaultValue, rest) := by
  cases flag with
  | false => simp [cbsGetOptionalAsn1Bool, h, flagChild]
  | true => exact cbsGetOptionalAsn1Bool_eq _ h rfl

section

variable (h : cbsGetOptionalAsn1 tag bytes = some (child, rest))
include h

theorem cbsGetOptionalAsn1Bool_flag {flag : Bool} (hchild : flagContents flag = some child) :
    cbsGetOptionalAsn1Bool tag false bytes = some (flag, rest) := by
  rw [flagContents_eq] at hchild
  cases hchild
  rw [cbsGetOptionalAsn1Bool_flagChild h, Bool.or_false]

theorem parseOptionalString_eq {value : Option CString}
    (hchild : (value.map CString.bytes).mapM cbbAddAsn1OctetString = some child) :
    parseOptionalString tag bytes = some (value, rest) := by
  have hread := cbsGetOptionalAsn1OctetString_eq h hchild
  unfold parseOptionalString
  rw [hread]
  rcases value with _ | value
  · rfl
  · exact dif_pos value.no_zero

theorem ssl3StateParseOctetString_eq {value : Bytes}
    (hchild : (nonemptyBytes value).mapM cbbAddAsn1OctetString = some child) :
    ssl3StateParseOctetString tag bytes = some (value, rest) := by
  have hread := cbsGetOptionalAsn1OctetString_eq h hchild
  simp [ssl3StateParseOctetString, hread, nonemptyBytes_getD]

end

end AwsLc
