import AwsLc.ByteString

/-!
# DER elements (`cbs.c`, `cbb.c`)

The identifiers, lengths and elements of the ASN.1 half of `CBS` and `CBB`.  A `CBB` child is the
bytes written to it, so `CBB_add_asn1` together with the `CBB_flush` that closes the child is one
function of the contents.
-/

namespace AwsLc

open AwsLc.BigEndian List Option Nat

/-! ### Identifiers -/

def CBS_ASN1_CONSTRUCTED : UInt32 := 0x20000000
def CBS_ASN1_CONTEXT_SPECIFIC : UInt32 := 0x80000000
def CBS_ASN1_TAG_NUMBER_MASK : UInt32 := 0x1fffffff

def CBS_ASN1_BOOLEAN : UInt32 := 0x1
def CBS_ASN1_INTEGER : UInt32 := 0x2
def CBS_ASN1_OCTETSTRING : UInt32 := 0x4
def CBS_ASN1_SEQUENCE : UInt32 := 0x10 ||| CBS_ASN1_CONSTRUCTED

/-- The number of 7-bit groups that `add_base128_integer` counts. -/
def base128Groups : (fuel : Nat) → UInt64 → Nat
  | 0, _ => 0
  | fuel + 1, copy => if copy = 0 then 0 else base128Groups fuel (copy >>> 7) + 1

theorem base128Groups_le (fuel : Nat) (copy : UInt64) : base128Groups fuel copy ≤ fuel := by
  induction fuel generalizing copy with
  | zero => exact le_refl 0
  | succ fuel ih =>
    rw [base128Groups]
    split
    · exact zero_le _
    · exact succ_le_succ (ih _)

/-- `add_base128_integer`; a 64-bit value has at most ten groups. -/
def addBase128Integer (v : UInt64) : Bytes :=
  (List.range (max 1 (base128Groups 10 v))).reverse.map fun i =>
    let byte := ((v >>> (7 * UInt64.ofNat i)) &&& 0x7f).toUInt8
    if i ≠ 0 then byte ||| 0x80 else byte

def parseBase128Integer : Bytes → UInt64 → Option (UInt64 × Bytes)
  | [], _ => none
  | b :: rest, v =>
    if v >>> 57 ≠ 0 then none
    else if v = 0 ∧ b = 0x80 then none
    else
      let v := (v <<< 7) ||| (b &&& 0x7f).toUInt64
      if b &&& 0x80 ≠ 0 then parseBase128Integer rest v else some (v, rest)

def parseAsn1TagNumber (tagByte : UInt8) (rest : Bytes) : Option (UInt32 × Bytes) :=
  if tagByte &&& 0x1f = 0x1f then
    match parseBase128Integer rest 0 with
    | none => none
    | some (v, rest) =>
      if v > CBS_ASN1_TAG_NUMBER_MASK.toUInt64 ∨ v < 0x1f then none
      else some (v.toUInt32, rest)
  else some ((tagByte &&& 0x1f).toUInt32, rest)

def parseAsn1Tag (cbs : Bytes) (universalTagOk : Bool) : Option (UInt32 × Bytes) := do
  let (tagByte, rest) ← cbsGetU8 cbs
  let (tagNumber, rest) ← parseAsn1TagNumber tagByte rest
  let tag := ((tagByte &&& 0xe0).toUInt32 <<< 24) ||| tagNumber
  -- Tag [UNIVERSAL 0] is reserved for use by the encoding
  if !universalTagOk ∧ tag &&& ~~~CBS_ASN1_CONSTRUCTED = 0 then none
  else some (tag, rest)

/-- The identifier octets that `CBB_add_asn1` writes. -/
def asn1TagBytes (tag : UInt32) : Bytes :=
  let tagBits := ((tag >>> 24) &&& 0xe0).toUInt8
  let tagNumber := tag &&& CBS_ASN1_TAG_NUMBER_MASK
  if tagNumber ≥ 0x1f then (tagBits ||| 0x1f) :: addBase128Integer tagNumber.toUInt64
  else [tagBits ||| tagNumber.toUInt8]

/-! ### Elements -/

/-- The length octets that `CBB_flush` writes for a child of `len` bytes. -/
def asn1LengthBytes (len : Nat) : Option Bytes :=
  if len > 0xfffffffe then none
  else if len > 0xffffff then some (0x84 :: beBytes 4 len)
  else if len > 0xffff then some (0x83 :: beBytes 3 len)
  else if len > 0xff then some (0x82 :: beBytes 2 len)
  else if len > 0x7f then some (0x81 :: beBytes 1 len)
  else some [UInt8.ofNat len]

/-- `CBB_add_asn1` with `contents` written to the child, and the flush after it. -/
def cbbAddAsn1 (tag : UInt32) (contents : Bytes) : Option Bytes := do
  let length ← asn1LengthBytes contents.length
  return asn1TagBytes tag ++ (length ++ contents)

/-- The number of contents octets announced by a definite length, and the length
    octets after the first. -/
def parseAsn1Length (lengthByte : UInt8) (header : Bytes) : Option (Nat × Nat) :=
  if lengthByte &&& 0x80 = 0 then some (lengthByte.toNat, 0)
  else
    let numBytes := (lengthByte &&& 0x7f).toNat
    if numBytes = 0 ∨ numBytes > 4 then none
    else
      match cbsGetU header numBytes with
      | none => none
      | some (len, _) =>
        -- DER takes the shortest form
        if len < 128 then none
        else if len >>> ((numBytes - 1) * 8) = 0 then none
        else some (len, numBytes)

/-- `CBS_get_any_asn1_element`: the tag, the length of the header, the element and the rest. -/
def cbsGetAnyAsn1Element (cbs : Bytes) : Option ((UInt32 × Nat × Bytes) × Bytes) := do
  let (tag, header) ← parseAsn1Tag cbs false
  let (lengthByte, header) ← cbsGetU8 header
  let headerLen := cbs.length - header.length
  let (len, numBytes) ← parseAsn1Length lengthByte header
  let (out, rest) ← cbsGetBytes cbs (len + headerLen + numBytes)
  return ((tag, headerLen + numBytes, out), rest)

def cbsGetAsn1 (tagValue : UInt32) (cbs : Bytes) : Option (Bytes × Bytes) := do
  let ((tag, headerLen, out), rest) ← cbsGetAnyAsn1Element cbs
  if tag ≠ tagValue then none
  let contents ← cbsSkip out headerLen
  return (contents, rest)

def cbsPeekAsn1Tag (cbs : Bytes) (tagValue : UInt32) : Bool :=
  match parseAsn1Tag cbs false with
  | none => false
  | some (tag, _) => tag = tagValue

end AwsLc
