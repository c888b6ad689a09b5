import AwsLc.AeadContext
import AwsLc.Memory

/-!
# Transport buffers (`ssl_buffer.cc`)

Short buffers live in an array inside the `SSLBuffer`; longer ones are allocated with seven bytes of
slack, and the data starts at the offset that aligns what follows a record header.  Under the
invariant `Layout` the four operations are those of a byte queue with a capacity.
-/

namespace AwsLc

open AwsLc.Memory

/-- Conversion to `int`; the overflow of a signed sum is its two's complement. -/
def toInt (x : Int) : Int := (x + 2 ^ 31) % 2 ^ 32 - 2 ^ 31

/-- Conversion to `size_t`, `uint64_t` and pointers. -/
def toSize (x : Int) : Int := x % 2 ^ 64

theorem toInt_of_fits {x : Int} (hneg : 0 ≤ x) (hmax : x ≤ INT_MAX) : toInt x = x := by
  simp only [INT_MAX] at hmax
  simp only [toInt]
  omega

theorem toSize_of_fits {x : Int} (hneg : 0 ≤ x) (hlt : x < 2 ^ 64) : toSize x = x := by
  rw [toSize, Int.emod_eq_of_lt hneg hlt]

def SSL3_ALIGN_PAYLOAD : Nat := 8
def SSLBUFFER_MAX_CAPACITY : Nat := INT_MAX - (SSL3_ALIGN_PAYLOAD - 1)

def computeBufferSize (capacity : Nat) : Nat := capacity + SSL3_ALIGN_PAYLOAD - 1

def computeBufferOffset (headerLen buffer : UInt64) : Nat := ((0 - headerLen - buffer) &&& 7).toNat

/-- What `malloc` returned: an address, and the bytes that happen to be there. -/
structure Allocation where
  address : UInt64
  junk : Nat → UInt8

def Allocation.memory (malloc : Allocation) (len : Nat) : Bytes :=
  (List.range len).map malloc.junk

structure InlineBuf where
  bytes : Bytes
  length_eq : bytes.length = SSL3_RT_HEADER_LENGTH

def zeroInline : InlineBuf := ⟨[0, 0, 0, 0, 0], rfl⟩

/-- `memmove(inline_buf_ + offset, data, data.size())`; the callers stay inside the array. -/
def InlineBuf.write (inlineBuf : InlineBuf) (offset : Nat) (data : Bytes) : InlineBuf :=
  if h : offset + data.length ≤ inlineBuf.bytes.length then
    ⟨memcpyAt inlineBuf.bytes offset data, (length_memcpyAt h).trans inlineBuf.length_eq⟩
  else inlineBuf

/-- What `buf_` points to. -/
inductive BufStorage where
  | null
  | inlined
  | heap (address : UInt64) (memory : Bytes)

inductive SslBufferSerdeVersion where
  | one
  | two
deriving DecidableEq, Repr

structure SslBuffer where
  buf : BufStorage
  bufCap : Nat
  bufSize : Nat
  headerLen : UInt64
  /-- the `int` `offset_`, as it is converted to `size_t` -/
  offset : Nat
  size : Nat
  cap : Nat
  inlineBuf : InlineBuf
  maxSerializationVersion : SslBufferSerdeVersion

namespace SslBuffer

def memory (buffer : SslBuffer) : Bytes :=
  match buffer.buf with
  | .null => []
  | .inlined => buffer.inlineBuf.bytes
  | .heap _ memory => memory

variable (buffer : SslBuffer)

def bufAllocated : Bool :=
  match buffer.buf with
  | .heap _ _ => true
  | _ => false

/-- `span`: the unread bytes. -/
def contents : Bytes := slice buffer.memory buffer.offset buffer.size

/-- A buffer that holds nothing; `inline_buf_` is not initialized. -/
def empty (inlineBuf : InlineBuf) : SslBuffer where
  buf := .null
  bufCap := 0
  bufSize := 0
  headerLen := 0
  offset := 0
  size := 0
  cap := 0
  inlineBuf := inlineBuf
  maxSerializationVersion := .two

def clear : SslBuffer := empty buffer.inlineBuf

def moveInline (headerLen : UInt64) (newCap : Nat) : SslBuffer :=
  { buffer with
    buf := .inlined
    bufCap := newCap
    bufSize := SSL3_RT_HEADER_LENGTH
    headerLen
    offset := 0
    cap := newCap
    inlineBuf := buffer.inlineBuf.write 0 buffer.contents
    maxSerializationVersion := .two }

def moveHeap (headerLen : UInt64) (newCap : Nat) (malloc : Allocation) : SslBuffer :=
  let bufSize := computeBufferSize newCap
  let offset := computeBufferOffset headerLen malloc.address
  { buffer with
    buf := .heap malloc.address (memcpyAt (malloc.memory bufSize) offset buffer.contents)
    bufCap := newCap
    bufSize
    headerLen
    offset
    cap := newCap
    maxSerializationVersion := .two }

/-- `EnsureCap`, which allocates with the outcome `malloc` if it has to.  On an
    allocation failure `buf_size_` has already been set. -/
def ensureCap (headerLen : UInt64) (newCap : Nat) (malloc : Option Allocation) : Bool × SslBuffer :=
  if newCap > SSLBUFFER_MAX_CAPACITY then (false, buffer)
  else if buffer.cap ≥ newCap then (true, buffer)
  else if newCap ≤ SSL3_RT_HEADER_LENGTH then (true, buffer.moveInline headerLen newCap)
  else
    match malloc with
    | none => (false, { buffer with bufSize := computeBufferSize newCap })
    | some malloc => (true, buffer.moveHeap headerLen newCap malloc)

/-- Write `data` to the memory at `buf_`. -/
def store (offset : Nat) (data : Bytes) : SslBuffer :=
  { buffer with
    buf := match buffer.buf with
      | .heap address memory => .heap address (memcpyAt memory offset data)
      | buf => buf
    inlineBuf := match buffer.buf with
      | .inlined => buffer.inlineBuf.write offset data
      | _ => buffer.inlineBuf }

/-- `DidWrite` of `data`, which the caller has filled in at `remaining()`; `none` is `abort()`. -/
def didWrite (data : Bytes) : Option SslBuffer :=
  if data.length > buffer.cap - buffer.size then none
  else some { buffer.store (buffer.offset + buffer.size) data with
    size := buffer.size + data.length }

/-- `Consume`; `none` is `abort()`. -/
def consume (len : Nat) : Option SslBuffer :=
  if len > buffer.size then none
  else some { buffer with
    offset := (toSize (toInt (buffer.offset + len))).toNat
    size := buffer.size - len
    cap := buffer.cap - len }

/-- The class invariant: the data lies inside the capacity, and that inside the memory and the
    range of an `int`. -/
structure Layout (buffer : SslBuffer) : Prop where
  size_le : buffer.size ≤ buffer.cap
  cap_le : buffer.offset + buffer.cap ≤ buffer.memory.length
  end_le : buffer.offset + buffer.cap ≤ INT_MAX

variable {buffer : SslBuffer}

theorem Layout.length_contents (h : buffer.Layout) : buffer.contents.length = buffer.size :=
  length_slice (by have := h.size_le; have := h.cap_le; omega)

theorem empty_layout (inlineBuf : InlineBuf) : (empty inlineBuf).Layout where
  size_le := Nat.le_refl _
  cap_le := Nat.le_refl _
  end_le := Nat.zero_le _

theorem clear_contents (buffer : SslBuffer) : buffer.clear.contents = [] := rfl

theorem computeBufferOffset_le (headerLen buffer : UInt64) :
    computeBufferOffset headerLen buffer ≤ 7 := by
  rw [computeBufferOffset, UInt64.toNat_and]
  exact Nat.and_le_right

theorem length_memory (malloc : Allocation) (len : Nat) : (malloc.memory len).length = len := by
  rw [Allocation.memory, List.length_map, List.length_range]

/-- What `EnsureCap` can do. -/
theorem ensureCap_cases (buffer : SslBuffer) (headerLen : UInt64) (newCap : Nat)
    (malloc : Option Allocation) : buffer.ensureCap headerLen newCap malloc = (false, buffer) ∨
    (newCap ≤ buffer.cap ∧ buffer.ensureCap headerLen newCap malloc = (true, buffer)) ∨
    (buffer.cap < newCap ∧ newCap ≤ SSL3_RT_HEADER_LENGTH ∧
      buffer.ensureCap headerLen newCap malloc = (true, buffer.moveInline headerLen newCap)) ∨
    (malloc = none ∧ buffer.ensureCap headerLen newCap malloc =
      (false, { buffer with bufSize := computeBufferSize newCap })) ∨
    (∃ allocation, malloc = some allocation ∧ buffer.cap < newCap ∧
      newCap ≤ SSLBUFFER_MAX_CAPACITY ∧ buffer.ensureCap headerLen newCap malloc =
        (true, buffer.moveHeap headerLen newCap allocation)) := by
  unfold ensureCap
  by_cases hmax : newCap > SSLBUFFER_MAX_CAPACITY
  · rw [if_pos hmax]
    exact Or.inl rfl
  · rw [if_neg hmax]
    by_cases hcap : buffer.cap ≥ newCap
    · rw [if_pos hcap]
      exact Or.inr (Or.inl ⟨hcap, rfl⟩)
    · rw [if_neg hcap]
      by_cases hshort : newCap ≤ SSL3_RT_HEADER_LENGTH
      · rw [if_pos hshort]
        exact Or.inr (Or.inr (Or.inl ⟨by omega, hshort, rfl⟩))
      · rw [if_neg hshort]
        cases malloc with
        | none => exact Or.inr (Or.inr (Or.inr (Or.inl ⟨rfl, rfl⟩)))
        | some allocation =>
          exact Or.inr (Or.inr (Or.inr (Or.inr ⟨allocation, rfl, by omega, by omega, rfl⟩)))

theorem moveInline_layout (h : buffer.Layout) {newCap : Nat} (hgrow : buffer.cap < newCap)
    (hshort : newCap ≤ SSL3_RT_HEADER_LENGTH) (headerLen : UInt64) :
    (buffer.moveInline headerLen newCap).Layout ∧
      (buffer.moveInline headerLen newCap).contents = buffer.contents := by
  have hsize := h.size_le
  have hlength := h.length_contents
  have hinline := buffer.inlineBuf.length_eq
  have hfits : 0 + buffer.contents.length ≤ buffer.inlineBuf.bytes.length := by omega
  have hmax : SSL3_RT_HEADER_LENGTH ≤ INT_MAX := by decide
  refine ⟨⟨?_, ?_, ?_⟩, ?_⟩
  · show buffer.size ≤ newCap
    omega
  · show 0 + newCap ≤ (buffer.inlineBuf.write 0 buffer.contents).bytes.length
    rw [(buffer.inlineBuf.write 0 buffer.contents).length_eq]
    omega
  · show 0 + newCap ≤ INT_MAX
    omega
  · show slice (buffer.inlineBuf.write 0 buffer.contents).bytes 0 buffer.size = buffer.contents
    rw [InlineBuf.write, dif_pos hfits, ← hlength]
    exact slice_memcpyAt_self hfits

theorem moveHeap_layout (h : buffer.Layout) {newCap : Nat} (hgrow : buffer.cap < newCap)
    (hmax : newCap ≤ SSLBUFFER_MAX_CAPACITY) (headerLen : UInt64) (malloc : Allocation) :
    (buffer.moveHeap headerLen newCap malloc).Layout ∧
      (buffer.moveHeap headerLen newCap malloc).contents = buffer.contents := by
  have hsize := h.size_le
  have hlength := h.length_contents
  have halign := computeBufferOffset_le headerLen malloc.address
  have hmemory := length_memory malloc (computeBufferSize newCap)
  have hroom : computeBufferSize newCap = newCap + 7 := rfl
  have hfits : computeBufferOffset headerLen malloc.address + buffer.contents.length ≤
      (malloc.memory (computeBufferSize newCap)).length := by omega
  have hint : SSLBUFFER_MAX_CAPACITY + 7 = INT_MAX := rfl
  refine ⟨⟨?_, ?_, ?_⟩, ?_⟩
  · show buffer.size ≤ newCap
    omega
  · show computeBufferOffset headerLen malloc.address + newCap ≤
      (memcpyAt (malloc.memory (computeBufferSize newCap)) _ buffer.contents).length
    rw [length_memcpyAt hfits]
    omega
  · show computeBufferOffset headerLen malloc.address + newCap ≤ INT_MAX
    omega
  · show slice (memcpyAt (malloc.memory (computeBufferSize newCap)) _ buffer.contents) _
      buffer.size = buffer.contents
    rw [← hlength]
    exact slice_memcpyAt_self hfits

/-- `EnsureCap` keeps the contents, and makes room when it succeeds. -/
theorem ensureCap_contents (h : buffer.Layout) (headerLen : UInt64) (newCap : Nat)
    (malloc : Option Allocation) : (buffer.ensureCap headerLen newCap malloc).2.Layout ∧
      (buffer.ensureCap headerLen newCap malloc).2.contents = buffer.contents ∧
      ((buffer.ensureCap headerLen newCap malloc).1 = true →
        newCap ≤ (buffer.ensureCap headerLen newCap malloc).2.cap) := by
  rcases buffer.ensureCap_cases headerLen newCap malloc with heq | ⟨hcap, heq⟩ |
    ⟨hgrow, hshort, heq⟩ | ⟨-, heq⟩ | ⟨allocation, -, hgrow, hmax, heq⟩
  · rw [heq]
    exact ⟨h, rfl, nofun⟩
  · rw [heq]
    exact ⟨h, rfl, fun _ => hcap⟩
  · rw [heq]
    obtain ⟨hlayout, hcontents⟩ := moveInline_layout h hgrow hshort headerLen
    exact ⟨hlayout, hcontents, fun _ => Nat.le_refl _⟩
  · rw [heq]
    exact ⟨⟨h.size_le, h.cap_le, h.end_le⟩, rfl, nofun⟩
  · rw [heq]
    obtain ⟨hlayout, hcontents⟩ := moveHeap_layout h hgrow hmax headerLen allocation
    exact ⟨hlayout, hcontents, fun _ => Nat.le_refl _⟩

theorem store_memory {offset : Nat} {data : Bytes}
    (hfits : offset + data.length ≤ buffer.memory.length) :
    (buffer.store offset data).memory = memcpyAt buffer.memory offset data := by
  rcases hbuf : buffer.buf with _ | _ | ⟨address, block⟩
  · simp only [memory, hbuf, List.length_nil] at hfits
    have hdata : data = [] := List.eq_nil_of_length_eq_zero (by omega)
    simp [store, memory, hbuf, hdata, memcpyAt]
  · simp only [memory, hbuf] at hfits
    simp [store, memory, hbuf, InlineBuf.write, dif_pos hfits]
  · simp [store, memory, hbuf]

/-- `DidWrite` appends what was filled in, if there is room for it. -/
theorem didWrite_contents (h : buffer.Layout) {data : Bytes}
    (hroom : data.length ≤ buffer.cap - buffer.size) :
    ∃ buffer', buffer.didWrite data = some buffer' ∧ buffer'.Layout ∧
      buffer'.contents = buffer.contents ++ data ∧ buffer'.cap = buffer.cap := by
  have hsize := h.size_le
  have hcap := h.cap_le
  have hfits : buffer.offset + buffer.size + data.length ≤ buffer.memory.length := by omega
  have hmemory := store_memory hfits
  refine ⟨_, if_neg (by omega), ⟨?_, ?_, h.end_le⟩, ?_, rfl⟩
  · show buffer.size + data.length ≤ buffer.cap
    omega
  · show buffer.offset + buffer.cap ≤
      (buffer.store (buffer.offset + buffer.size) data).memory.length
    rw [hmemory, length_memcpyAt hfits]
    exact hcap
  · show slice (buffer.store (buffer.offset + buffer.size) data).memory buffer.offset
      (buffer.size + data.length) = _
    rw [hmemory, slice_add, slice_memcpyAt_of_le (by omega) (Nat.le_refl _),
      slice_memcpyAt_self hfits]
    rfl

theorem offset_consumed {len : Nat} (h : buffer.offset + len ≤ INT_MAX) :
    (toSize (toInt (buffer.offset + len))).toNat = buffer.offset + len := by
  have hmax : INT_MAX < 2 ^ 64 := by decide
  rw [toInt_of_fits (by omega) (by omega), toSize_of_fits (by omega) (by omega)]
  omega

/-- `Consume` drops bytes from the front. -/
theorem consume_contents (h : buffer.Layout) {len : Nat} (hlen : len ≤ buffer.size) :
    ∃ buffer', buffer.consume len = some buffer' ∧ buffer'.Layout ∧
      buffer'.contents = buffer.contents.drop len := by
  have hsize := h.size_le
  have hcap := h.cap_le
  have hend := h.end_le
  rw [consume, if_neg (by omega), offset_consumed (by omega)]
  refine ⟨_, rfl, ⟨?_, ?_, ?_⟩, ?_⟩
  · show buffer.size - len ≤ buffer.cap - len
    omega
  · show buffer.offset + len + (buffer.cap - len) ≤ buffer.memory.length
    omega
  · show buffer.offset + len + (buffer.cap - len) ≤ INT_MAX
    omega
  · show slice buffer.memory (buffer.offset + len) (buffer.size - len) = _
    rw [contents, drop_slice]

end SslBuffer

end AwsLc
