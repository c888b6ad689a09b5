import AwsLc.Runs
import AwsLc.SslBufferRestore

/-!
# The integers of a transport buffer (`ssl_buffer.cc`)

`SSLBuffer` keeps its offset, size and capacity as `int`, other lengths as `size_t`, and compares
pointers.  Here every value is brought into the range of its C type; a pointer is a number below `2
^ 64`.  `BufferFields.Shows` relates the fields to the buffer of `SslBuffer`, whose lengths are
natural numbers: where the two agree, nothing wrapped.
-/

namespace AwsLc

open AwsLc.Runs Option

/-- Conversion to `int64_t` and `ptrdiff_t`. -/
def toInt64 (x : Int) : Int := (x + 2 ^ 63) % 2 ^ 64 - 2 ^ 63

theorem toInt_toSize_of_fits {x : Int} {n : Nat} (hx : x = n) (hmax : n ≤ INT_MAX) :
    toInt (toSize x) = n := by
  have hint : INT_MAX < 2 ^ 64 := by decide
  rw [hx, toSize_of_fits (by omega) (by omega), toInt_of_fits (by omega) (by omega)]

/-- A sum that is not smaller than its first part did not wrap. -/
theorem toSize_add_of_le {base x : Int} (hbase : 0 ≤ base) (hlt : base < 2 ^ 64) (hneg : 0 ≤ x)
    (hmax : x < 2 ^ 64) (hle : base ≤ toSize (base + x)) : toSize (base + x) = base + x := by
  simp only [toSize] at hle ⊢
  omega

/-- `malloc`: memory that it returns ends inside the address space. -/
structure Malloc where
  call : UInt64 → Option UInt64
  inside : ∀ len address, call len = some address → address.toNat + len.toNat < 2 ^ 64

def InlineAddress : Type :=
  { address : UInt64 // address.toNat + SSL3_RT_HEADER_LENGTH < 2 ^ 64 }

/-- The fields of an `SSLBuffer`, and where its `inline_buf_` is. -/
structure BufferFields where
  inlineBuf : InlineAddress
  buf : Int
  bufAllocated : Bool
  bufCap : Int
  bufSize : Int
  headerLen : Int
  offset : Int
  size : Int
  cap : Int

def kBufferViewOffsetFromDataPtr : UInt32 :=
  CBS_ASN1_CONSTRUCTED ||| CBS_ASN1_CONTEXT_SPECIFIC ||| 0

open BufferFields

namespace BufferFields

variable (fields : BufferFields)

def clear : BufferFields where
  inlineBuf := fields.inlineBuf
  buf := 0
  bufAllocated := false
  bufCap := 0
  bufSize := 0
  headerLen := 0
  offset := 0
  size := 0
  cap := 0

def endPtr : Int := toSize (fields.buf + fields.bufSize)

def data : Int := toSize (fields.buf + fields.offset)

def dataEndPtr : Int := toSize (fields.data + fields.size)

def remainingPtr : Int :=
  toSize (fields.dataEndPtr + toInt (fields.cap - fields.size))

def validateBuffersState : Bool :=
  !(fields.data > fields.endPtr || fields.data < fields.buf ||
    fields.dataEndPtr > fields.endPtr || fields.dataEndPtr < fields.buf ||
    fields.size > fields.cap ||
    fields.remainingPtr > fields.endPtr || fields.remainingPtr < fields.buf)

def validated : Option BufferFields :=
  if fields.validateBuffersState then some fields else none

/-- The memory and the fields that `DoDeserializationV1` sets. -/
def placeV1 (image : SerializedV1) (buf : UInt64) (bufSize : Int) : BufferFields :=
  { fields.clear with
    buf := buf.toNat
    bufAllocated := image.bufAllocated
    bufSize
    offset := toInt image.offset.toNat
    size := toInt image.size.toNat
    cap := toInt image.cap.toNat }

/-- The second half of `DoDeserializationV1`. -/
def restoreV1 (image : SerializedV1) (malloc : Malloc) : Option BufferFields :=
  if image.offset.toNat > INT_MAX ∨ image.size.toNat > INT_MAX ∨ image.cap.toNat > INT_MAX then none
  else if image.bufAllocated then
    if image.buf.length ≤ SSL3_RT_HEADER_LENGTH then none
    else
      match malloc.call (UInt64.ofNat image.buf.length) with
      | none => none
      | some address => (fields.placeV1 image address (toSize image.buf.length)).validated
  else if image.buf.length ≠ SSL3_RT_HEADER_LENGTH then none
  else (fields.placeV1 image fields.inlineBuf.1 SSL3_RT_HEADER_LENGTH).validated

/-- The memory and the fields that `DoDeserializationV2` sets. -/
def placeV2 (image : SerializedV2) (buf : UInt64) (bufSize : Int)
    (alignOffset : Nat) : BufferFields :=
  { fields.clear with
    buf := buf.toNat
    bufAllocated := image.bufAllocated
    bufCap := image.bufCap.toNat
    bufSize
    headerLen := image.headerLen.toNat
    offset := toInt (toSize (alignOffset + image.relOffset.toNat))
    size := toInt (toSize (image.buf.length - image.relOffset.toNat))
    cap := toInt image.cap.toNat }

/-- The second half of `DoDeserializationV2`. -/
def restoreV2 (image : SerializedV2) (malloc : Malloc) : Option BufferFields :=
  let relOffset : Int := image.relOffset.toNat
  let len : Int := image.buf.length
  if image.bufCap.toNat > SSLBUFFER_MAX_CAPACITY ∨ relOffset > INT_MAX ∨ relOffset > len ∨
      image.cap.toNat > INT_MAX then none
  else if image.bufAllocated then
    let bufSize := toSize (toSize (image.bufCap.toNat + SSL3_ALIGN_PAYLOAD) - 1)
    match malloc.call (UInt64.ofNat bufSize.toNat) with
    | none => none
    | some address =>
      let alignOffset := computeBufferOffset image.headerLen address
      if relOffset > toSize (INT_MAX - alignOffset) ∨ toSize (len - relOffset) > INT_MAX ∨
          len > toSize (bufSize - alignOffset) then none
      else (fields.placeV2 image address bufSize alignOffset).validated
  else if len > SSL3_RT_HEADER_LENGTH ∨ image.bufCap.toNat > SSL3_RT_HEADER_LENGTH then none
  else (fields.placeV2 image fields.inlineBuf.1 SSL3_RT_HEADER_LENGTH 0).validated

variable (cbs : Bytes)

def doDeserialization (malloc : Malloc) : Option (BufferFields × Bytes) := do
  let (seq, rest) ← cbsGetAsn1 CBS_ASN1_SEQUENCE cbs
  let (version, seq) ← cbsGetAsn1Uint64 seq
  if version = 2 then
    let image ← readV2 seq
    let restored ← fields.restoreV2 image malloc
    return (restored, rest)
  else if version = 1 then
    let image ← readV1 seq
    let restored ← fields.restoreV1 image malloc
    return (restored, rest)
  else none

def ensureCap (headerLen newCap : UInt64) (malloc : Malloc) : Bool × BufferFields :=
  if newCap.toNat > SSLBUFFER_MAX_CAPACITY then (false, fields)
  else if toSize fields.cap ≥ newCap.toNat then (true, fields)
  else if newCap.toNat ≤ SSL3_RT_HEADER_LENGTH then
    (true, { fields with
      buf := fields.inlineBuf.1.toNat
      bufAllocated := false
      bufCap := toSize (toInt newCap.toNat)
      bufSize := SSL3_RT_HEADER_LENGTH
      headerLen := headerLen.toNat
      offset := 0
      cap := toInt newCap.toNat })
  else
    let bufSize := toSize (toSize (newCap.toNat + SSL3_ALIGN_PAYLOAD) - 1)
    match malloc.call (UInt64.ofNat bufSize.toNat) with
    | none => (false, { fields with bufSize })
    | some address =>
      (true, { fields with
        buf := address.toNat
        bufAllocated := true
        bufCap := toSize (toInt newCap.toNat)
        bufSize
        headerLen := headerLen.toNat
        offset := toInt (computeBufferOffset headerLen address)
        cap := toInt newCap.toNat })

/-- `DidWrite`; `none` is `abort()`. -/
def didWrite (newSize : UInt64) : Option BufferFields :=
  if newSize.toNat > toSize (toSize fields.cap - toSize fields.size) then none
  else some { fields with size := toInt (toSize (toSize fields.size + newSize.toNat)) }

/-- `Consume`; `none` is `abort()`. -/
def consume (len : UInt64) : Option BufferFields :=
  if len.toNat > toSize fields.size then none
  else some { fields with
    offset := toInt (fields.offset + toInt len.toNat)
    size := toInt (fields.size - toInt len.toNat)
    cap := toInt (fields.cap - toInt len.toNat) }

def deserializeBufferViewFromBufPtrOffset : Option (Int × Int) := do
  let (offset, cbs) ← cbsGetAsn1Uint64 cbs
  let (size, _) ← cbsGetAsn1Uint64 cbs
  if offset.toNat > fields.bufSize ∨ size.toNat > toSize (fields.bufSize - offset.toNat) then none
  return (toSize (fields.buf + offset.toNat), size.toNat)

def deserializeBufferViewFromDataOffset : Option (Int × Int) := do
  let (child, cbs) ← cbsGetAsn1 kBufferViewOffsetFromDataPtr cbs
  let (offset, _) ← cbsGetAsn1Int64 child
  let (size, _) ← cbsGetAsn1Uint64 cbs
  let dataOff := toInt64 (fields.data - fields.buf)
  let bufSize := toInt64 fields.bufSize
  if offset.toInt < toInt64 (-dataOff) ∨ offset.toInt > toInt64 (bufSize - dataOff) ∨
      size.toNat > toSize (toInt64 (bufSize - toInt64 (dataOff + offset.toInt))) then none
  return (toSize (fields.data + offset.toInt), size.toNat)

def deserializeBufferView : Option ((Int × Int) × Bytes) := do
  let (appSeq, rest) ← cbsGetAsn1 CBS_ASN1_SEQUENCE cbs
  let view ←
    if cbsPeekAsn1Tag appSeq CBS_ASN1_INTEGER then
      fields.deserializeBufferViewFromBufPtrOffset appSeq
    else if cbsPeekAsn1Tag appSeq kBufferViewOffsetFromDataPtr then
      fields.deserializeBufferViewFromDataOffset appSeq
    else none
  return (view, rest)

/-! ### What a reader accepts -/

/-- The invariant: the data lies inside the capacity, the capacity inside the memory,
    and the fields of type `int` hold what was computed. -/
structure Sound (fields : BufferFields) : Prop where
  offset_nonneg : 0 ≤ fields.offset
  offset_le : fields.offset ≤ INT_MAX
  size_nonneg : 0 ≤ fields.size
  size_le : fields.size ≤ fields.cap
  cap_le : fields.cap ≤ INT_MAX
  room : fields.offset + fields.cap ≤ fields.bufSize

/-- The memory ends inside the address space and is no larger than an object can be. -/
structure Placed (fields : BufferFields) : Prop where
  buf_nonneg : 0 ≤ fields.buf
  end_lt : fields.buf + fields.bufSize < 2 ^ 64
  size_lt : fields.bufSize < 2 ^ 63

structure Shows (fields : BufferFields) (buffer : SslBuffer) : Prop where
  allocated_eq : fields.bufAllocated = buffer.bufAllocated
  buf_eq : match buffer.buf with
    | .null => fields.buf = 0
    | .inlined => fields.buf = fields.inlineBuf.1.toNat
    | .heap address _ => fields.buf = address.toNat
  bufCap_eq : fields.bufCap = buffer.bufCap
  bufSize_eq : fields.bufSize = buffer.bufSize
  headerLen_eq : fields.headerLen = buffer.headerLen.toNat
  offset_eq : fields.offset = buffer.offset
  size_eq : fields.size = buffer.size
  cap_eq : fields.cap = buffer.cap

variable {fields : BufferFields}

/-- No pointer that `ValidateBuffersState` forms from sound fields wraps. -/
theorem Sound.pointers (h : fields.Sound) (hplaced : fields.Placed) :
    fields.endPtr = fields.buf + fields.bufSize ∧ fields.data = fields.buf + fields.offset ∧
      fields.dataEndPtr = fields.buf + fields.offset + fields.size ∧
      fields.remainingPtr = fields.buf + fields.offset + fields.cap := by
  obtain ⟨hoffset, hoffsetMax, hsize, hsizeCap, hcap, hroom⟩ := h
  obtain ⟨hbuf, hend, -⟩ := hplaced
  have hdata : fields.data = fields.buf + fields.offset :=
    toSize_of_fits (by omega) (by omega)
  have hdataEnd : fields.dataEndPtr = fields.buf + fields.offset + fields.size := by
    rw [dataEndPtr, hdata]
    exact toSize_of_fits (by omega) (by omega)
  refine ⟨toSize_of_fits (by omega) (by omega), hdata, hdataEnd, ?_⟩
  rw [remainingPtr, hdataEnd, toInt_of_fits (by omega) (by omega), toSize_of_fits] <;> omega

variable {restored : BufferFields}

/-- **The final sanity check** refuses where its pointers wrap: what it accepts is sound. -/
theorem sound_of_validated (hplaced : fields.Placed)
    (hoffset : 0 ≤ fields.offset ∧ fields.offset ≤ INT_MAX)
    (hsize : 0 ≤ fields.size ∧ fields.size ≤ INT_MAX) (hcap : 0 ≤ fields.cap ∧ fields.cap ≤ INT_MAX)
    (hbufSize : 0 ≤ fields.bufSize) (h : fields.validated = some restored) :
    restored = fields ∧ fields.Sound := by
  unfold validated at h
  split at h
  · rename_i hvalid
    cases h
    refine ⟨rfl, ?_⟩
    obtain ⟨hbuf, hend, -⟩ := hplaced
    simp only [validateBuffersState, Bool.not_eq_true', Bool.or_eq_false_iff,
      decide_eq_false_iff_not, not_lt] at hvalid
    obtain ⟨⟨⟨⟨⟨⟨hdataEnd, hdataStart⟩, -⟩, hendStart⟩, hsizeCap⟩, hremaining⟩, hremainingStart⟩ :=
      hvalid
    have hendPtr : fields.endPtr = fields.buf + fields.bufSize :=
      toSize_of_fits (by omega) hend
    simp only [INT_MAX] at hoffset hsize hcap
    have hdata : fields.data = fields.buf + fields.offset :=
      toSize_add_of_le hbuf (by omega) (by omega) (by omega) hdataStart
    have hdataEndPtr : fields.dataEndPtr = fields.buf + (fields.offset + fields.size) := by
      rw [dataEndPtr, hdata, Int.add_assoc] at hendStart ⊢
      exact toSize_add_of_le hbuf (by omega) (by omega) (by omega) hendStart
    have hremainingPtr : fields.remainingPtr = fields.buf + (fields.offset + fields.cap) := by
      have hsum : fields.dataEndPtr + toInt (fields.cap - fields.size) =
          fields.buf + (fields.offset + fields.cap) := by
        rw [toInt_of_fits (by omega) (by simp only [INT_MAX]; omega)]
        omega
      rw [remainingPtr, hsum] at hremainingStart ⊢
      exact toSize_add_of_le hbuf (by omega) (by omega) (by omega) hremainingStart
    exact ⟨hoffset.1, hoffset.2, hsize.1, hsizeCap, hcap.2, by omega⟩
  · cases h

/-- The same for fields that are natural numbers, as the reader of unbounded lengths has. -/
theorem validated_nat {buf : UInt64} {bufSize offset size cap : Nat}
    (h : fields.validated = some restored) (hbuf : fields.buf = buf.toNat)
    (hbufSize : fields.bufSize = bufSize) (hoffset : fields.offset = offset)
    (hsize : fields.size = size) (hcap : fields.cap = cap) (hoffsetMax : offset ≤ INT_MAX)
    (hsizeMax : size ≤ INT_MAX) (hcapMax : cap ≤ INT_MAX) (hinside : buf.toNat + bufSize < 2 ^ 64)
    (hobject : bufSize < 2 ^ 63) :
    restored = fields ∧ fields.Sound ∧ fields.Placed ∧ size ≤ cap ∧ offset + cap ≤ bufSize := by
  have hplaced : fields.Placed := ⟨by omega, by omega, by omega⟩
  obtain ⟨rfl, hsound⟩ := sound_of_validated hplaced (by omega) (by omega) (by omega) (by omega) h
  have hsizeCap := hsound.size_le
  have hroom := hsound.room
  exact ⟨rfl, hsound, hplaced, by omega, by omega⟩

/-- **Version 1.**  What is restored is sound, and as computed without bounds. -/
theorem restoreV1_sound {image : SerializedV1} {malloc : Malloc}
    (hlength : image.buf.length < 2 ^ 32) (h : fields.restoreV1 image malloc = some restored) :
    restored.Sound ∧ restored.Placed ∧ ∀ buffer : SslBuffer, ∃ allocation shown,
      buffer.restoreV1 image allocation = some shown ∧ restored.Shows shown := by
  unfold restoreV1 at h
  split at h
  · cases h
  rename_i hbounds
  have hoffset := @toInt_of_fits image.offset.toNat (by omega) (by omega)
  have hsize := @toInt_of_fits image.size.toNat (by omega) (by omega)
  have hcap := @toInt_of_fits image.cap.toNat (by omega) (by omega)
  split at h
  · rename_i hallocated
    split at h
    · cases h
    rename_i hlong
    split at h
    · cases h
    rename_i address hmalloc
    have hinside := malloc.inside _ _ hmalloc
    rw [UInt64.toNat_ofNat_of_lt' (hlength.trans (by decide))] at hinside
    rw [toSize_of_fits (by omega) (by omega)] at h
    obtain ⟨rfl, hsound, hplaced, hsizeCap, hroom⟩ := validated_nat h rfl rfl hoffset hsize hcap
      (by omega) (by omega) (by omega) hinside (by omega)
    refine ⟨hsound, hplaced, fun buffer =>
      ⟨some ⟨address, fun _ => 0⟩, buffer.placeHeapV1 image ⟨address, fun _ => 0⟩, ?_, ?_⟩⟩
    · rw [SslBuffer.restoreV1, if_neg hbounds, if_pos hallocated, if_neg hlong]
      exact SslBuffer.validated_of hsizeCap hroom
    · exact ⟨hallocated, rfl, rfl, rfl, rfl, hoffset, hsize, hcap⟩
  · rename_i hallocated
    split at h
    · cases h
    rename_i hlong
    obtain ⟨rfl, hsound, hplaced, hsizeCap, hroom⟩ := validated_nat h rfl rfl hoffset hsize hcap
      (by omega) (by omega) (by omega) fields.inlineBuf.2 (by decide)
    refine ⟨hsound, hplaced, fun buffer => ⟨none, buffer.placeInlineV1 image, ?_, ?_⟩⟩
    · rw [SslBuffer.restoreV1, if_neg hbounds, if_neg hallocated, if_neg hlong]
      exact SslBuffer.validated_of hsizeCap hroom
    · exact ⟨Bool.eq_false_of_not_eq_true hallocated, rfl, rfl, rfl, rfl, hoffset, hsize, hcap⟩

theorem computeBufferSize_fits {cap : Nat} (hmax : cap ≤ SSLBUFFER_MAX_CAPACITY) :
    toSize (toSize (cap + SSL3_ALIGN_PAYLOAD) - 1) = computeBufferSize cap := by
  simp only [SSLBUFFER_MAX_CAPACITY, SSL3_ALIGN_PAYLOAD, INT_MAX] at hmax
  simp only [toSize, computeBufferSize, SSL3_ALIGN_PAYLOAD]
  omega

/-- **Version 2.**  The same, whatever address was allocated. -/
theorem restoreV2_sound {image : SerializedV2} {malloc : Malloc}
    (hlength : image.buf.length < 2 ^ 32) (h : fields.restoreV2 image malloc = some restored) :
    restored.Sound ∧ restored.Placed ∧ ∀ buffer : SslBuffer, ∃ allocation shown,
      buffer.restoreV2 image allocation = some shown ∧ restored.Shows shown := by
  have hmax : SSLBUFFER_MAX_CAPACITY = INT_MAX - 7 := rfl
  have hint : INT_MAX = 2 ^ 31 - 1 := rfl
  have hfive : SSL3_RT_HEADER_LENGTH = 5 := rfl
  unfold restoreV2 at h
  dsimp only at h
  split at h
  · cases h
  rename_i hrefused
  obtain ⟨hbufCap, hrel, hrelLen, hcapMax⟩ : image.bufCap.toNat ≤ SSLBUFFER_MAX_CAPACITY ∧
      image.relOffset.toNat ≤ INT_MAX ∧ image.relOffset.toNat ≤ image.buf.length ∧
      image.cap.toNat ≤ INT_MAX := by omega
  have hbounds : ¬(image.bufCap.toNat > SSLBUFFER_MAX_CAPACITY ∨ image.relOffset.toNat > INT_MAX ∨
      image.relOffset.toNat > image.buf.length ∨ image.cap.toNat > INT_MAX) := by omega
  have hcut := (Int.ofNat_sub hrelLen).symm
  have hcap := toInt_of_fits (Int.natCast_nonneg _) (Int.ofNat_le.mpr hcapMax)
  split at h
  · rename_i hallocated
    rw [computeBufferSize_fits hbufCap, Int.toNat_natCast] at h
    split at h
    · cases h
    rename_i address hmalloc
    have halign := SslBuffer.computeBufferOffset_le image.headerLen address
    have hobject : computeBufferSize image.bufCap.toNat < 2 ^ 63 := by
      show image.bufCap.toNat + 7 < 2 ^ 63
      omega
    have hinside := malloc.inside _ _ hmalloc
    rw [UInt64.toNat_ofNat_of_lt' (hobject.trans (by decide))] at hinside
    have hroomy : 7 ≤ computeBufferSize image.bufCap.toNat := Nat.le_add_left _ _
    split at h
    · cases h
    rename_i hunfit
    rw [toSize_of_fits (by omega) (by omega), toSize_of_fits (by omega) (by omega),
      toSize_of_fits (by omega) (by omega)] at hunfit
    have hsum : computeBufferOffset image.headerLen address + image.relOffset.toNat ≤ INT_MAX := by
      omega
    have hsizeMax : image.buf.length - image.relOffset.toNat ≤ INT_MAX := by omega
    have hfits : ¬(image.relOffset.toNat > INT_MAX - computeBufferOffset image.headerLen address ∨
        image.buf.length - image.relOffset.toNat > INT_MAX ∨ image.buf.length >
          computeBufferSize image.bufCap.toNat - computeBufferOffset image.headerLen address) := by
      omega
    have hoffset := toInt_toSize_of_fits (Int.natCast_add _ _).symm hsum
    have hsize := toInt_toSize_of_fits hcut hsizeMax
    obtain ⟨rfl, hsound, hplaced, hsizeCap, hroom⟩ :=
      validated_nat h rfl rfl hoffset hsize hcap hsum hsizeMax hcapMax hinside hobject
    refine ⟨hsound, hplaced, fun buffer =>
      ⟨some ⟨address, fun _ => 0⟩, buffer.placeHeapV2 image ⟨address, fun _ => 0⟩, ?_, ?_⟩⟩
    · rw [SslBuffer.restoreV2]
      dsimp only
      rw [if_neg hbounds, if_pos hallocated, if_neg hfits]
      exact SslBuffer.validated_of hsizeCap hroom
    · exact ⟨hallocated, rfl, rfl, rfl, rfl, hoffset, hsize, hcap⟩
  · rename_i hallocated
    split at h
    · cases h
    rename_i hunfit
    have hfits : ¬(image.buf.length > SSL3_RT_HEADER_LENGTH ∨
        image.bufCap.toNat > SSL3_RT_HEADER_LENGTH) := by omega
    have hsizeMax : image.buf.length - image.relOffset.toNat ≤ INT_MAX := by omega
    have hoffset := toInt_toSize_of_fits (Int.zero_add (image.relOffset.toNat : Int)) hrel
    have hsize := toInt_toSize_of_fits hcut hsizeMax
    obtain ⟨rfl, hsound, hplaced, hsizeCap, hroom⟩ := validated_nat h rfl rfl hoffset hsize hcap
      hrel hsizeMax hcapMax fields.inlineBuf.2 (by decide)
    refine ⟨hsound, hplaced, fun buffer => ⟨none, buffer.placeInlineV2 image, ?_, ?_⟩⟩
    · rw [SslBuffer.restoreV2]
      rw [if_neg hbounds, if_neg hallocated, if_neg hfits]
      exact SslBuffer.validated_of hsizeCap hroom
    · exact ⟨Bool.eq_false_of_not_eq_true hallocated, rfl, rfl, rfl, rfl, hoffset, hsize, hcap⟩

variable {cbs : Bytes}

theorem length_octets {contents rest : Bytes}
    (h : cbsGetAsn1 CBS_ASN1_OCTETSTRING cbs = some (contents, rest)) : contents.length < 2 ^ 32 :=
  (cbsGetAsn1_iff.mp h).2.1

theorem length_readV1 {image : SerializedV1} (h : readV1 cbs = some image) :
    image.buf.length < 2 ^ 32 := by
  simp only [readV1, bind_eq_bind, bind_eq_some_iff] at h
  obtain ⟨_, -, _, -, _, -, _, -, ⟨buf, rest⟩, hbuf, h⟩ := h
  split at h
  · cases h
  · cases h
    exact length_octets hbuf

theorem length_readV2 {image : SerializedV2} (h : readV2 cbs = some image) :
    image.buf.length < 2 ^ 32 := by
  simp only [readV2, bind_eq_bind, bind_eq_some_iff] at h
  obtain ⟨_, -, _, -, _, -, _, -, _, -, ⟨buf, rest⟩, hbuf, h⟩ := h
  split at h
  · cases h
  · cases h
    exact length_octets hbuf

/-- **Every accepted byte string** gives a sound buffer, and the one that unbounded numbers give. -/
theorem doDeserialization_sound {rest : Bytes} {malloc : Malloc}
    (h : fields.doDeserialization cbs malloc = some (restored, rest)) :
    restored.Sound ∧ restored.Placed ∧ ∀ buffer : SslBuffer, ∃ allocation shown,
      buffer.doDeserialization cbs allocation = some (shown, rest) ∧ restored.Shows shown := by
  unfold doDeserialization at h
  obtain ⟨⟨seq, after⟩, hseq, h⟩ := bind_eq_some_iff.mp h
  obtain ⟨⟨version, tail⟩, hversion, h⟩ := bind_eq_some_iff.mp h
  dsimp only at h
  split at h
  · rename_i htwo
    obtain ⟨image, himage, h⟩ := bind_eq_some_iff.mp h
    obtain ⟨restored', hrestored, h⟩ := bind_eq_some_iff.mp h
    cases h
    obtain ⟨hsound, hplaced, hshows⟩ := restoreV2_sound (length_readV2 himage) hrestored
    refine ⟨hsound, hplaced, fun buffer => ?_⟩
    obtain ⟨allocation, shown, hideal, hshown⟩ := hshows buffer
    refine ⟨allocation, shown, ?_, hshown⟩
    simp [SslBuffer.doDeserialization, hseq, hversion, htwo, himage, hideal]
  split at h
  · rename_i hone
    obtain ⟨image, himage, h⟩ := bind_eq_some_iff.mp h
    obtain ⟨restored', hrestored, h⟩ := bind_eq_some_iff.mp h
    cases h
    obtain ⟨hsound, hplaced, hshows⟩ := restoreV1_sound (length_readV1 himage) hrestored
    refine ⟨hsound, hplaced, fun buffer => ?_⟩
    obtain ⟨allocation, shown, hideal, hshown⟩ := hshows buffer
    refine ⟨allocation, shown, ?_, hshown⟩
    simp [SslBuffer.doDeserialization, hseq, hversion, hone, himage, hideal]
  · cases h

/-- The view lies in the memory at `buf_ptr()`. -/
def Covers (fields : BufferFields) (view : Int × Int) : Prop :=
  fields.buf ≤ view.1 ∧ 0 ≤ view.2 ∧ view.1 + view.2 ≤ fields.buf + fields.bufSize

theorem covers_fromBufPtr (hplaced : fields.Placed) {view : Int × Int}
    (h : fields.deserializeBufferViewFromBufPtrOffset cbs = some view) : fields.Covers view := by
  simp only [deserializeBufferViewFromBufPtrOffset, bind_eq_bind,
    bind_eq_some_iff] at h
  obtain ⟨⟨offset, after⟩, -, ⟨size, _⟩, -, h⟩ := h
  dsimp only at h
  obtain ⟨hbuf, hend, -⟩ := hplaced
  split at h
  · cases h
  · rename_i hfits
    cases h
    rw [toSize_of_fits (by omega) (by omega)] at hfits
    rw [Covers, toSize_of_fits (by omega) (by omega)]
    refine ⟨?_, ?_, ?_⟩ <;> dsimp only <;> omega

theorem toInt64_of_fits {x : Int} (hmin : -2 ^ 63 ≤ x) (hmax : x < 2 ^ 63) : toInt64 x = x := by
  simp only [toInt64]
  omega

theorem covers_fromData (hsound : fields.Sound) (hplaced : fields.Placed) {view : Int × Int}
    (h : fields.deserializeBufferViewFromDataOffset cbs = some view) : fields.Covers view := by
  simp only [deserializeBufferViewFromDataOffset, bind_eq_bind,
    bind_eq_some_iff] at h
  obtain ⟨⟨child, after⟩, -, ⟨offset, _⟩, -, ⟨size, _⟩, -, h⟩ := h
  dsimp only at h
  obtain ⟨-, hdata, -, -⟩ := hsound.pointers hplaced
  obtain ⟨hoffset, -, hsize, hsizeCap, -, hroom⟩ := hsound
  obtain ⟨hbuf, hend, hobject⟩ := hplaced
  have hdataOff : toInt64 (fields.data - fields.buf) = fields.offset := by
    rw [hdata, toInt64_of_fits] <;> omega
  rw [hdataOff, toInt64_of_fits (by omega) hobject, toInt64_of_fits (by omega) (by omega),
    toInt64_of_fits (by omega) (by omega)] at h
  split at h
  · cases h
  · rename_i hfits
    cases h
    have hsum : toInt64 (fields.offset + offset.toInt) = fields.offset + offset.toInt :=
      toInt64_of_fits (by omega) (by omega)
    have hleft : toInt64 (fields.bufSize - toInt64 (fields.offset + offset.toInt)) =
        fields.bufSize - (fields.offset + offset.toInt) := by
      rw [hsum, toInt64_of_fits] <;> omega
    rw [hleft, toSize_of_fits (by omega) (by omega)] at hfits
    rw [Covers, hdata, toSize_of_fits (by omega) (by omega)]
    refine ⟨?_, ?_, ?_⟩ <;> dsimp only <;> omega

theorem covers_deserializeBufferView (hsound : fields.Sound) (hplaced : fields.Placed)
    {rest : Bytes} {view : Int × Int} (h : fields.deserializeBufferView cbs = some (view, rest)) :
    fields.Covers view := by
  obtain ⟨⟨appSeq, after⟩, -, h⟩ := bind_eq_some_iff.mp h
  dsimp only at h
  split at h
  · obtain ⟨view', hview, h⟩ := bind_eq_some_iff.mp h
    cases h
    exact covers_fromBufPtr hplaced hview
  split at h
  · obtain ⟨view', hview, h⟩ := bind_eq_some_iff.mp h
    cases h
    exact covers_fromData hsound hplaced hview
  · cases h

/-! ### What happens to it afterwards -/

end BufferFields

inductive BufferCall where
  | ensureCap (headerLen newCap : UInt64) (malloc : Malloc)
  | didWrite (newSize : UInt64)
  | consume (len : UInt64)

namespace BufferFields

def step (fields : BufferFields) : BufferCall → Option BufferFields
  | .ensureCap headerLen newCap malloc => some (fields.ensureCap headerLen newCap malloc).2
  | .didWrite newSize => fields.didWrite newSize
  | .consume len => fields.consume len

/-- When an operation keeps a buffer sound: memory that `EnsureCap` failed to allocate would have
    been enough for what the buffer has, and the offset stays an `int`. -/
def Fits (fields : BufferFields) : BufferCall → Prop
  | .ensureCap _ newCap malloc =>
      fields.cap < newCap.toNat → SSL3_RT_HEADER_LENGTH < newCap.toNat →
      newCap.toNat ≤ SSLBUFFER_MAX_CAPACITY →
      malloc.call (UInt64.ofNat (computeBufferSize newCap.toNat)) = none →
      fields.offset + fields.cap ≤ computeBufferSize newCap.toNat
  | .didWrite _ => True
  | .consume len => fields.offset + len.toNat ≤ INT_MAX

variable {fields : BufferFields}

theorem Sound.ensureCap (h : fields.Sound) (headerLen newCap : UInt64) (malloc : Malloc) :
    (fields.ensureCap headerLen newCap malloc).2.Sound ↔
      fields.Fits (.ensureCap headerLen newCap malloc) := by
  have hmax : SSLBUFFER_MAX_CAPACITY = INT_MAX - 7 := rfl
  have hint : INT_MAX = 2 ^ 31 - 1 := rfl
  obtain ⟨hoffset, hoffsetMax, hsize, hsizeCap, hcap, hroom⟩ := id h
  have hcapSize := toSize_of_fits (by omega) (show fields.cap < 2 ^ 64 by omega)
  unfold BufferFields.ensureCap
  rw [hcapSize]
  clear hcapSize
  split
  · rename_i hlarge
    refine ⟨fun _ _ _ hle => ?_, fun _ => h⟩
    omega
  rename_i hlarge
  split
  · rename_i henough
    refine ⟨fun _ hgrow => ?_, fun _ => h⟩
    omega
  rename_i hgrow
  have hfit : (newCap.toNat : Int) ≤ INT_MAX := by omega
  have hgrows : fields.size ≤ newCap.toNat := by omega
  split
  · rename_i hshort
    refine ⟨fun _ _ hlong => absurd hlong (Nat.not_lt.mpr hshort), fun _ => ?_⟩
    dsimp only
    rw [toInt_of_fits (Int.natCast_nonneg _) hfit]
    exact ⟨Int.le_refl _, Int.natCast_nonneg _, hsize, hgrows, hfit, by dsimp only; omega⟩
  · rename_i hshort
    have hbufSize : computeBufferSize newCap.toNat = newCap.toNat + 7 := rfl
    dsimp only
    rw [computeBufferSize_fits (Nat.not_lt.mp hlarge), Int.toNat_natCast]
    split
    · rename_i hfailed
      constructor
      · exact fun hsound _ _ _ _ => hsound.room
      · intro hfits
        exact ⟨hoffset, hoffsetMax, hsize, hsizeCap, hcap, hfits (Int.not_le.mp hgrow)
          (Nat.not_le.mp hshort) (Nat.not_lt.mp hlarge) hfailed⟩
    · rename_i address hmalloc
      refine ⟨fun _ _ _ _ hfailed => absurd (hfailed.symm.trans hmalloc) nofun, fun _ => ?_⟩
      have halign := SslBuffer.computeBufferOffset_le headerLen address
      have hoffset' := toInt_of_fits (Int.natCast_nonneg (computeBufferOffset headerLen address))
        (by omega)
      dsimp only
      rw [toInt_of_fits (Int.natCast_nonneg _) hfit, hoffset']
      clear hoffset'
      refine ⟨?_, ?_, hsize, hgrows, hfit, ?_⟩ <;> dsimp only <;> omega

variable {fields' : BufferFields}

theorem Sound.didWrite (h : fields.Sound) {newSize : UInt64}
    (hstep : fields.didWrite newSize = some fields') : fields'.Sound := by
  have hint : INT_MAX = 2 ^ 31 - 1 := rfl
  obtain ⟨hoffset, hoffsetMax, hsize, hsizeCap, hcap, hroom⟩ := h
  unfold BufferFields.didWrite at hstep
  rw [toSize_of_fits (x := fields.cap) (by omega) (by omega), toSize_of_fits hsize (by omega),
    toSize_of_fits (by omega) (by omega)] at hstep
  split at hstep
  · cases hstep
  · rename_i hfits
    have hsum : (0 : Int) ≤ fields.size + newSize.toNat ∧
        fields.size + newSize.toNat ≤ fields.cap := by omega
    cases hstep
    rw [toSize_of_fits hsum.1 (by omega), toInt_of_fits hsum.1 (by omega)]
    exact ⟨hoffset, hoffsetMax, hsum.1, hsum.2, hcap, hroom⟩

theorem Sound.consume (h : fields.Sound) {len : UInt64} (hstep : fields.consume len = some fields')
    : fields'.Sound ↔ fields.Fits (.consume len) := by
  have hint : INT_MAX = 2 ^ 31 - 1 := rfl
  obtain ⟨hoffset, hoffsetMax, hsize, hsizeCap, hcap, hroom⟩ := h
  unfold BufferFields.consume at hstep
  rw [toSize_of_fits hsize (by omega)] at hstep
  split at hstep
  · cases hstep
  · rename_i hlen
    have hlenMax : (len.toNat : Int) ≤ INT_MAX := by omega
    cases hstep
    rw [toInt_of_fits (Int.natCast_nonneg _) hlenMax,
      @toInt_of_fits (fields.size - len.toNat) (by omega) (by omega),
      @toInt_of_fits (fields.cap - len.toNat) (by omega) (by omega)]
    constructor
    · intro hsound
      have hnonneg := hsound.offset_nonneg
      simp only [toInt] at hnonneg
      simp only [Fits]
      omega
    · intro hfits
      simp only [Fits] at hfits
      rw [toInt_of_fits (by omega) hfits]
      refine ⟨?_, hfits, ?_, ?_, ?_, ?_⟩ <;> dsimp only <;> omega

/-- **One operation** keeps a sound buffer sound exactly when it fits. -/
theorem Sound.step (h : fields.Sound) {call : BufferCall} (hstep : fields.step call = some fields')
    : fields'.Sound ↔ fields.Fits call := by
  cases call with
  | ensureCap headerLen newCap malloc =>
    cases hstep
    exact h.ensureCap headerLen newCap malloc
  | didWrite newSize => exact iff_of_true (h.didWrite hstep) trivial
  | consume len => exact h.consume hstep

end BufferFields

/-- **Restored buffers are safe.**  Whatever the bytes, the address that `malloc` returns and the
    buffer they are read into: what a successful deserialization leaves is sound and what unbounded
    numbers give, no pointer of the final check wraps, and every view that is read for it lies in
    its memory.  The calls that follow keep it sound exactly as long as they fit. -/
theorem ssl_buffer_deserialization_safe {fields restored : BufferFields} {cbs rest : Bytes}
    {malloc : Malloc} (h : fields.doDeserialization cbs malloc = some (restored, rest)) :
    restored.Sound ∧ (∀ buffer : SslBuffer, ∃ allocation shown,
      buffer.doDeserialization cbs allocation = some (shown, rest) ∧ restored.Shows shown) ∧
    (restored.endPtr = restored.buf + restored.bufSize ∧
      restored.data = restored.buf + restored.offset ∧
      restored.dataEndPtr = restored.buf + restored.offset + restored.size ∧
      restored.remainingPtr = restored.buf + restored.offset + restored.cap) ∧
    (∀ input view rest', restored.deserializeBufferView input = some (view, rest') →
      restored.Covers view) ∧ ∀ calls, Along step BufferFields.Sound restored calls ↔
      Meets step BufferFields.Fits restored calls := by
  obtain ⟨hsound, hplaced, hshows⟩ := doDeserialization_sound h
  refine ⟨hsound, hshows, hsound.pointers hplaced, ?_, ?_⟩
  · intro input view rest' hview
    exact covers_deserializeBufferView hsound hplaced hview
  · intro calls
    apply along_iff_meets _ hsound
    intro state call next hstate hstep
    exact hstate.step hstep

def mallocAt (address : UInt64) : Malloc where
  call len := if address.toNat + len.toNat < 2 ^ 64 then some address else none
  inside len found h := by
    split at h
    · rename_i hfits
      cases h
      exact hfits
    · cases h

def mallocFails : Malloc where
  call _ := none
  inside _ _ h := nomatch h

/-- A buffer that holds nothing, with `inline_buf_` at address 64. -/
def emptyFields : BufferFields where
  inlineBuf := ⟨64, by decide⟩
  buf := 0
  bufAllocated := false
  bufCap := 0
  bufSize := 0
  headerLen := 0
  offset := 0
  size := 0
  cap := 0

def consumedImage : Bytes :=
  [0x30, 39, 0x02, 1, 2, 0x01, 1, 0xff, 0x02, 1, 20, 0x02, 1, 5, 0x02, 1, 18, 0x02, 1, 2,
    0x04, 19] ++ List.replicate 19 0xaa

theorem consumedImage_restored :
    ∃ restored rest, emptyFields.doDeserialization consumedImage (mallocAt 4096) =
        some (restored, rest) ∧
      restored.offset = 21 ∧ restored.size = 1 ∧ restored.cap = 2 ∧ restored.bufSize = 27 := by
  have hread : (emptyFields.doDeserialization consumedImage (mallocAt 4096)).map
      (fun read => (read.1.offset, read.1.size, read.1.cap, read.1.bufSize)) =
        some (21, 1, 2, 27) := by decide +kernel
  obtain ⟨⟨restored, rest⟩, hrestored, hfields⟩ := map_eq_some_iff.mp hread
  simp only [Prod.mk.injEq] at hfields
  exact ⟨restored, rest, hrestored, hfields⟩

/-- The restored byte can be consumed. -/
theorem ssl_buffer_consumed_safe :
    ∃ restored rest, emptyFields.doDeserialization consumedImage (mallocAt 4096) =
        some (restored, rest) ∧ restored.Sound ∧
      Along step BufferFields.Sound restored [.consume 1] := by
  obtain ⟨restored, rest, hrestored, hoffset, -⟩ := consumedImage_restored
  obtain ⟨hsound, -, -, -, hcalls⟩ := ssl_buffer_deserialization_safe hrestored
  refine ⟨restored, rest, hrestored, hsound, (hcalls _).mpr ?_⟩
  intro next _
  refine ⟨?_, trivial⟩
  simp only [BufferFields.Fits, hoffset]
  decide

def restoredHuge : BufferFields :=
  { emptyFields with
    buf := 4096
    bufAllocated := true
    bufSize := 2 ^ 31
    offset := 2 ^ 31 - 1
    size := 1
    cap := 1 }

/-- V1 fields that no serialization writes: the data starts at `INT_MAX`. -/
def hugeImage : SerializedV1 where
  bufAllocated := true
  offset := UInt64.ofNat INT_MAX
  size := 1
  cap := 1
  buf := List.replicate (INT_MAX + 1) 0

theorem hugeImage_offset : hugeImage.offset.toNat = INT_MAX :=
  UInt64.toNat_ofNat_of_lt' (by decide)

theorem length_hugeImage : hugeImage.buf.length = INT_MAX + 1 :=
  List.length_replicate

theorem placeV1_hugeImage :
    emptyFields.placeV1 hugeImage 4096 (toSize hugeImage.buf.length) = restoredHuge := by
  have hoffset : toInt (INT_MAX : Nat) = 2 ^ 31 - 1 := by decide +kernel
  have hbufSize : toSize (INT_MAX + 1 : Nat) = 2 ^ 31 := by decide +kernel
  have hone : toInt (1 : Nat) = 1 := by decide +kernel
  have hsize : hugeImage.size.toNat = 1 := rfl
  have hcap : hugeImage.cap.toNat = 1 := rfl
  rw [placeV1, hugeImage_offset, length_hugeImage, hoffset, hbufSize, hsize, hcap, hone]
  rfl

theorem restoreV1_hugeFields :
    emptyFields.restoreV1 hugeImage (mallocAt 4096) = some restoredHuge := by
  have hoffset := hugeImage_offset
  have hlength := length_hugeImage
  have hone : hugeImage.size.toNat = 1 ∧ hugeImage.cap.toNat = 1 := ⟨rfl, rfl⟩
  have hmax : SSL3_RT_HEADER_LENGTH < INT_MAX := by decide
  have hmalloc : (mallocAt 4096).call (UInt64.ofNat hugeImage.buf.length) = some 4096 := by
    rw [hlength]
    decide +kernel
  have hvalid : restoredHuge.validateBuffersState = true := by decide +kernel
  rw [restoreV1, if_neg (by omega),
    if_pos (show hugeImage.bufAllocated = true from rfl), if_neg (by omega), hmalloc]
  dsimp only
  rw [placeV1_hugeImage, validated, if_pos hvalid]

theorem consume_restoredHuge : ∃ next, restoredHuge.step (.consume 1) = some next ∧
    next.offset = -2 ^ 31 := by
  have hconsume : (restoredHuge.step (.consume 1)).map (·.offset) = some (-2 ^ 31) := by
    decide +kernel
  exact map_eq_some_iff.mp hconsume

/-- **Where a restored buffer does not stay sound.**  `EnsureCap` runs out of memory and
    records 15 bytes for memory of 27 that is in use up to byte 23.  And the one byte at
    `INT_MAX` that was restored from version 1 is consumed. -/
theorem ssl_buffer_deserialization_unsafe :
    (∃ restored rest next, emptyFields.doDeserialization consumedImage (mallocAt 4096) =
        some (restored, rest) ∧ restored.step (.ensureCap 0 8 mallocFails) = some next ∧
      next.offset + next.cap > next.bufSize) ∧
    ∃ image restored rest next, emptyFields.doDeserialization image (mallocAt 4096) =
        some (restored, rest) ∧ restored.step (.consume 1) = some next ∧ next.offset = -2 ^ 31 := by
  constructor
  · obtain ⟨restored, rest, hrestored, hoffset, -, hcap, -⟩ := consumedImage_restored
    refine ⟨restored, rest, _, hrestored, rfl, ?_⟩
    have hstep : (restored.ensureCap 0 8 mallocFails).2 = { restored with bufSize := 15 } := by
      rw [BufferFields.ensureCap, if_neg (by decide), hcap, if_neg (by decide),
        if_neg (by decide)]
      rfl
    rw [hstep]
    dsimp only
    omega
  · obtain ⟨image, himage, -⟩ := SerializedV1.exists_toBytes
      (show hugeImage.buf.length ≤ 2 ^ 32 - 256 by rw [length_hugeImage]; decide)
    obtain ⟨seq, tail, hseq, hversion, hread⟩ := SerializedV1.reads_toBytes himage []
    rw [List.append_nil] at hseq
    obtain ⟨next, hconsume⟩ := consume_restoredHuge
    refine ⟨image, restoredHuge, [], next, ?_, hconsume⟩
    refine bind_of_eq_some hseq (bind_of_eq_some hversion ?_)
    dsimp only
    rw [if_neg (by decide), if_pos rfl]
    exact bind_of_eq_some hread (bind_of_eq_some restoreV1_hugeFields rfl)

end AwsLc
