import AwsLc.Asn1Types
import AwsLc.SslBuffer

/-!
# Restoring an `SSLBuffer` (`ssl_buffer.cc`)

Version 2 has the bytes from the aligned start to the end of the unread data together with the
capacity that `EnsureCap` was asked for.  Version 1 has the whole memory; a buffer restored from it
does not know that capacity.
-/

namespace AwsLc

open AwsLc.Memory List Option SslBuffer

/-! ### The two formats -/

structure SerializedV1 where
  bufAllocated : Bool
  offset : UInt64
  size : UInt64
  cap : UInt64
  buf : Bytes

structure SerializedV2 where
  bufAllocated : Bool
  bufCap : UInt64
  headerLen : UInt64
  relOffset : UInt64
  cap : UInt64
  buf : Bytes

def SerializedV1.toBytes (image : SerializedV1) : Option Bytes := do
  let version ← cbbAddAsn1Uint64 1
  let bufAllocated ← cbbAddAsn1Bool image.bufAllocated
  let offset ← cbbAddAsn1Uint64 image.offset
  let size ← cbbAddAsn1Uint64 image.size
  let cap ← cbbAddAsn1Uint64 image.cap
  let buf ← cbbAddAsn1OctetString image.buf
  cbbAddAsn1 CBS_ASN1_SEQUENCE (version ++ (bufAllocated ++ (offset ++ (size ++ (cap ++ buf)))))

variable (cbs : Bytes)

/-- The reading half of `DoDeserializationV1`. -/
def readV1 : Option SerializedV1 := do
  let (bufAllocated, cbs) ← cbsGetAsn1Bool cbs
  let (offset, cbs) ← cbsGetAsn1Uint64 cbs
  let (size, cbs) ← cbsGetAsn1Uint64 cbs
  let (cap, cbs) ← cbsGetAsn1Uint64 cbs
  let (buf, cbs) ← cbsGetAsn1 CBS_ASN1_OCTETSTRING cbs
  if cbs ≠ [] then none
  return { bufAllocated, offset, size, cap, buf }

/-- The reading half of `DoDeserializationV2`. -/
def readV2 : Option SerializedV2 := do
  let (bufAllocated, cbs) ← cbsGetAsn1Bool cbs
  let (bufCap, cbs) ← cbsGetAsn1Uint64 cbs
  let (headerLen, cbs) ← cbsGetAsn1Uint64 cbs
  let (relOffset, cbs) ← cbsGetAsn1Uint64 cbs
  let (cap, cbs) ← cbsGetAsn1Uint64 cbs
  let (buf, cbs) ← cbsGetAsn1 CBS_ASN1_OCTETSTRING cbs
  if cbs ≠ [] then none
  return { bufAllocated, bufCap, headerLen, relOffset, cap, buf }

theorem SerializedV1.exists_toBytes {image : SerializedV1}
    (hlength : image.buf.length ≤ 2 ^ 32 - 256) :
    ∃ bytes, image.toBytes = some bytes ∧ bytes.length ≤ image.buf.length + 200 := by
  unfold toBytes
  refine exists_bind (exists_cbbAddAsn1Uint64 _) fun version h₁ => ?_
  refine exists_bind (exists_cbbAddAsn1Bool _) fun bufAllocated h₂ => ?_
  refine exists_bind (exists_cbbAddAsn1Uint64 _) fun offset h₃ => ?_
  refine exists_bind (exists_cbbAddAsn1Uint64 _) fun size h₄ => ?_
  refine exists_bind (exists_cbbAddAsn1Uint64 _) fun cap h₅ => ?_
  refine exists_bind (exists_cbbAddAsn1 _ (Nat.le_refl _) (by omega)) fun buf h₆ => ?_
  refine exists_cbbAddAsn1 _ ?_ (by omega)
  simp only [length_append]
  omega

theorem SerializedV1.reads_toBytes {image : SerializedV1} {bytes : Bytes}
    (h : image.toBytes = some bytes) (rest : Bytes) : ∃ seq tail,
      cbsGetAsn1 CBS_ASN1_SEQUENCE (bytes ++ rest) = some (seq, rest) ∧
      cbsGetAsn1Uint64 seq = some (1, tail) ∧ readV1 tail = some image := by
  simp only [SerializedV1.toBytes, bind_eq_bind, bind_eq_some_iff] at h
  obtain ⟨version, hversion, allocated, hallocated, offset, hoffset, size, hsize, cap, hcap,
    buf, hbuf, hbytes⟩ := h
  have hoctets := cbsGetAsn1_cbbAddAsn1 tagReads_octetString hbuf []
  rw [append_nil] at hoctets
  refine ⟨_, _, cbsGetAsn1_cbbAddAsn1 tagReads_sequence hbytes rest,
    cbsGetAsn1Uint64_reads hversion _, ?_⟩
  simp [readV1, cbsGetAsn1Bool_reads hallocated _, cbsGetAsn1Uint64_reads hoffset _,
    cbsGetAsn1Uint64_reads hsize _, cbsGetAsn1Uint64_reads hcap _, hoctets]

/-! ### Restoring -/

namespace SslBuffer

variable (buffer : SslBuffer)

/-- `ValidateBuffersState`, with pointers as offsets from `buf_`. -/
def validateBuffersState : Bool :=
  !(buffer.offset > buffer.bufSize || buffer.offset + buffer.size > buffer.bufSize ||
    buffer.size > buffer.cap ||
    buffer.offset + buffer.size + (buffer.cap - buffer.size) > buffer.bufSize)

def validated : Option SslBuffer :=
  if buffer.validateBuffersState then some buffer else none

/-- V1 was lossy: `buf_cap_` and `header_len_` stay zero. -/
def placeHeapV1 (image : SerializedV1) (malloc : Allocation) : SslBuffer :=
  { buffer.clear with
    buf := .heap malloc.address image.buf
    bufSize := image.buf.length
    offset := image.offset.toNat
    size := image.size.toNat
    cap := image.cap.toNat
    maxSerializationVersion := .one }

def placeInlineV1 (image : SerializedV1) : SslBuffer :=
  { buffer.clear with
    buf := .inlined
    bufSize := SSL3_RT_HEADER_LENGTH
    inlineBuf := buffer.inlineBuf.write 0 image.buf
    offset := image.offset.toNat
    size := image.size.toNat
    cap := image.cap.toNat
    maxSerializationVersion := .one }

/-- The second half of `DoDeserializationV1`. -/
def restoreV1 (image : SerializedV1) (malloc : Option Allocation) : Option SslBuffer :=
  if image.offset.toNat > INT_MAX ∨ image.size.toNat > INT_MAX ∨ image.cap.toNat > INT_MAX then none
  else if image.bufAllocated then
    if image.buf.length ≤ SSL3_RT_HEADER_LENGTH then none
    else
      match malloc with
      | none => none
      | some malloc => (buffer.placeHeapV1 image malloc).validated
  else if image.buf.length ≠ SSL3_RT_HEADER_LENGTH then none
  else (buffer.placeInlineV1 image).validated

def placeHeapV2 (image : SerializedV2) (malloc : Allocation) : SslBuffer :=
  let bufSize := computeBufferSize image.bufCap.toNat
  let alignOffset := computeBufferOffset image.headerLen malloc.address
  { buffer.clear with
    buf := .heap malloc.address (memcpyAt (malloc.memory bufSize) alignOffset image.buf)
    bufSize
    bufCap := image.bufCap.toNat
    headerLen := image.headerLen
    offset := alignOffset + image.relOffset.toNat
    size := image.buf.length - image.relOffset.toNat
    cap := image.cap.toNat
    maxSerializationVersion := .two }

def placeInlineV2 (image : SerializedV2) : SslBuffer :=
  { buffer.clear with
    buf := .inlined
    bufSize := SSL3_RT_HEADER_LENGTH
    inlineBuf := buffer.inlineBuf.write 0 image.buf
    bufCap := image.bufCap.toNat
    headerLen := image.headerLen
    offset := image.relOffset.toNat
    size := image.buf.length - image.relOffset.toNat
    cap := image.cap.toNat
    maxSerializationVersion := .two }

/-- The second half of `DoDeserializationV2`. -/
def restoreV2 (image : SerializedV2) (malloc : Option Allocation) : Option SslBuffer :=
  let relOffset := image.relOffset.toNat
  let bufCap := image.bufCap.toNat
  let len := image.buf.length
  if bufCap > SSLBUFFER_MAX_CAPACITY ∨ relOffset > INT_MAX ∨ relOffset > len ∨
      image.cap.toNat > INT_MAX then none
  else if image.bufAllocated then
    match malloc with
    | none => none
    | some malloc =>
      let alignOffset := computeBufferOffset image.headerLen malloc.address
      if relOffset > INT_MAX - alignOffset ∨ len - relOffset > INT_MAX ∨
          len > computeBufferSize bufCap - alignOffset then none
      else (buffer.placeHeapV2 image malloc).validated
  else if len > SSL3_RT_HEADER_LENGTH ∨ bufCap > SSL3_RT_HEADER_LENGTH then none
  else (buffer.placeInlineV2 image).validated

/-- `DoDeserialization` into `buffer`, which is replaced on success. -/
def doDeserialization (cbs : Bytes) (malloc : Option Allocation) :
    Option (SslBuffer × Bytes) := do
  let (seq, rest) ← cbsGetAsn1 CBS_ASN1_SEQUENCE cbs
  let (version, seq) ← cbsGetAsn1Uint64 seq
  if version = 2 then
    let image ← readV2 seq
    let restored ← buffer.restoreV2 image malloc
    return (restored, rest)
  else if version = 1 then
    let image ← readV1 seq
    let restored ← buffer.restoreV1 image malloc
    return (restored, rest)
  else none

theorem validateBuffersState_iff : buffer.validateBuffersState = true ↔
      buffer.size ≤ buffer.cap ∧ buffer.offset + buffer.cap ≤ buffer.bufSize := by
  simp only [validateBuffersState, Bool.not_eq_true', Bool.or_eq_false_iff, decide_eq_false_iff_not]
  omega

variable {buffer : SslBuffer}

theorem validated_of (hsize : buffer.size ≤ buffer.cap)
    (hcap : buffer.offset + buffer.cap ≤ buffer.bufSize) : buffer.validated = some buffer := by
  rw [validated, if_pos ((validateBuffersState_iff buffer).mpr ⟨hsize, hcap⟩)]

end SslBuffer

end AwsLc
