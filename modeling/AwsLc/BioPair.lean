import AwsLc.ByteString
import AwsLc.Fifo
import AwsLc.Ring
import AwsLc.Runs

/-!
# A pair of BIOs

Each end of a pair writes into a buffer of its own, which the other end reads from: a ring, with the
number of bytes in it and the offset of the first one.  Both copy loops go around the end of the
buffer at most once, and the offset is set back when the buffer is empty.
-/

namespace AwsLc

open List

/-! ### The two ends -/

def PTRDIFF_MAX : Nat := 2 ^ 63 - 1

/-- `bio_bio_st` without the link to the peer: the buffer for what this end writes. -/
structure BioBio where
  closed : Bool
  len : Nat
  offset : Nat
  size : Nat
  buf : Bytes
  request : Nat
deriving DecidableEq, Repr

/-- The fields of `BIO` that the methods of a pair use. -/
structure Bio where
  shutdown : Int
  retryRead : Bool
  retryWrite : Bool
  bb : BioBio
deriving DecidableEq, Repr

inductive BioEnd where
  | one
  | two
deriving DecidableEq, Repr

def BioEnd.peer : BioEnd → BioEnd
  | .one => .two
  | .two => .one

variable (e : BioEnd)

@[simp] theorem BioEnd.peer_peer : e.peer.peer = e := by cases e <;> rfl

@[simp] theorem BioEnd.peer_ne : e.peer ≠ e := by cases e <;> nofun

structure BioPair where
  bio : BioEnd → Bio

open BioPair

namespace BioPair

variable (pair : BioPair)

def buffer (e : BioEnd) : BioBio := (pair.bio e).bb

def setBio (e : BioEnd) (bio : Bio) : BioPair :=
  ⟨fun e' => if e' = e then bio else pair.bio e'⟩

def setBuffer (e : BioEnd) (bb : BioBio) : BioPair :=
  pair.setBio e { pair.bio e with bb := bb }

def setRetry (e : BioEnd) (retryRead retryWrite : Bool) : BioPair :=
  pair.setBio e { pair.bio e with retryRead := retryRead, retryWrite := retryWrite }

variable (e : BioEnd)

@[simp] theorem bio_setBio (bio : Bio) : (pair.setBio e bio).bio e = bio := if_pos rfl

@[simp] theorem bio_setBio_peer (bio : Bio) : (pair.setBio e bio).bio e.peer = pair.bio e.peer :=
  if_neg e.peer_ne

@[simp] theorem buffer_setBuffer_peer (bb : BioBio) :
    (pair.setBuffer e bb).buffer e.peer = pair.buffer e.peer := by
  simp [buffer, setBuffer]

@[simp] theorem buffer_peer_setBuffer (bb : BioBio) :
    (pair.setBuffer e.peer bb).buffer e = pair.buffer e := by
  cases e <;> simp [buffer, setBuffer, setBio, BioEnd.peer]

end BioPair

/-- What a call returns: its value, the bytes that were read, and the retry flags after it. -/
structure BioResult where
  ret : Int
  data : Bytes
  retryRead : Bool
  retryWrite : Bool
deriving DecidableEq, Repr

/-- The sum of two values of type `size_t`. -/
def sizeAdd (a b : Nat) : Nat := (a + b) % 2 ^ 64

variable (b : BioBio)

/-- The bytes that the loop of `bio_read` copies next: not beyond the end of the buffer. -/
def BioBio.readChunk (rest : Nat) : Nat :=
  if sizeAdd b.offset rest ≤ b.size then rest else b.size - b.offset

/-- The fields after `chunk` bytes were read. -/
def BioBio.advance (chunk : Nat) : BioBio :=
  if b.len - chunk ≠ 0 then
    let offset := sizeAdd b.offset chunk
    { b with len := b.len - chunk, offset := if offset = b.size then 0 else offset }
  else { b with len := 0, offset := 0 }

/-- The loop of `bio_read`, which copies `rest` bytes from the peer's buffer.  `none` stands for a
    loop that does not end. -/
def bioReadLoop (b : BioBio) (rest : Nat) : Option (Bytes × BioBio) :=
  if b.readChunk rest = 0 then none
  else if rest - b.readChunk rest = 0 then
    some ((b.buf.drop b.offset).take (b.readChunk rest), b.advance (b.readChunk rest))
  else
    (bioReadLoop (b.advance (b.readChunk rest)) (rest - b.readChunk rest)).map fun (data, b') =>
      ((b.buf.drop b.offset).take (b.readChunk rest) ++ data, b')
termination_by rest

def BioBio.writeOffset : Nat :=
  let offset := sizeAdd b.offset b.len
  if offset ≥ b.size then offset - b.size else offset

/-- The bytes that the loop of `bio_write` copies next. -/
def BioBio.writeChunk (rest : Nat) : Nat :=
  if sizeAdd b.writeOffset rest ≤ b.size then rest else b.size - b.writeOffset

/-- The fields after `data` was written. -/
def BioBio.append (data : Bytes) : BioBio :=
  { b with buf := Overwrite.write b.buf b.writeOffset data, len := b.len + data.length }

def bioWriteLoop (b : BioBio) (buf : Bytes) : Option BioBio :=
  if b.writeChunk buf.length = 0 then none
  else if buf.length - b.writeChunk buf.length = 0 then some (b.append buf)
  else
    bioWriteLoop (b.append (buf.take (b.writeChunk buf.length)))
      (buf.drop (b.writeChunk buf.length))
termination_by buf.length
decreasing_by
  rw [List.length_drop]
  omega

variable (pair : BioPair)
variable (e : BioEnd)

/-- `bio_write`, for a buffer that is neither `NULL` nor empty. -/
def bioWrite (buf : Bytes) : Option (BioResult × BioPair) :=
  let pair := pair.setRetry e false false
  let b : BioBio := { pair.buffer e with request := 0 }
  if b.closed then some (⟨-1, [], false, false⟩, pair.setBuffer e b)
  else if b.len = b.size then
    some (⟨-1, [], false, true⟩, (pair.setBuffer e b).setRetry e false true)
  else
    let num := if buf.length > b.size - b.len then b.size - b.len else buf.length
    (bioWriteLoop b (buf.take num)).map fun b => (⟨num, [], false, false⟩, pair.setBuffer e b)

/-- A call of `BIO_read`, `BIO_write` or `BIO_shutdown_wr` on one of the ends. -/
inductive BioOp where
  | read (e : BioEnd) (len : Nat)
  | write (e : BioEnd) (data : Bytes)
  | shutdownWr (e : BioEnd)
deriving DecidableEq, Repr

/-- The lengths are positive values of type `int`. -/
def BioOp.Valid : BioOp → Prop
  | .read _ len => 0 < len ∧ len ≤ INT_MAX
  | .write _ data => 0 < data.length ∧ data.length ≤ INT_MAX
  | .shutdownWr _ => True

namespace BioBio

def queue : Bytes := Ring.contents b.buf b.offset b.len

structure Ok (b : BioBio) : Prop where
  length_buf : b.buf.length = b.size
  size_le : b.size ≤ PTRDIFF_MAX
  len_le : b.len ≤ b.size
  offset_lt : b.offset < b.size

variable {b : BioBio}

/-- The invariant does not depend on the request, nor on whether the buffer is closed. -/
theorem Ok.flags (h : b.Ok) (request : Nat) (closed : Bool) :
    ({ b with request, closed } : BioBio).Ok :=
  ⟨h.length_buf, h.size_le, h.len_le, h.offset_lt⟩

/-- Sums of two values up to the size of the buffer do not overflow. -/
theorem Ok.sizeAdd_eq (h : b.Ok) {m n : Nat} (hm : m ≤ b.size) (hn : n ≤ b.size) :
    sizeAdd m n = m + n := by
  have hsize := h.size_le
  unfold PTRDIFF_MAX at hsize
  exact Nat.mod_eq_of_lt (by omega)

structure Same (b b' : BioBio) : Prop where
  closed : b'.closed = b.closed
  size : b'.size = b.size

theorem Same.trans {b' b'' : BioBio} (h : Same b b') (h' : Same b' b'') : Same b b'' :=
  ⟨h'.closed.trans h.closed, h'.size.trans h.size⟩

theorem Ok.readChunk_spec (h : b.Ok) {rest : Nat} (hpos : 0 < rest) (hrest : rest ≤ b.len) :
    0 < b.readChunk rest ∧ b.readChunk rest ≤ rest ∧ b.offset + b.readChunk rest ≤ b.size := by
  have hoffset := h.offset_lt
  have hlen := h.len_le
  unfold readChunk
  rw [h.sizeAdd_eq (by omega) (by omega)]
  split <;> omega

theorem Ok.advance (h : b.Ok) {chunk : Nat} (hchunk : chunk ≤ b.len)
    (hend : b.offset + chunk ≤ b.size) :
    (b.advance chunk).Ok ∧ (b.advance chunk).len = b.len - chunk ∧ Same b (b.advance chunk) ∧
      b.queue = (b.buf.drop b.offset).take chunk ++ (b.advance chunk).queue := by
  have hlen := h.len_le
  have hoffset := h.offset_lt
  have htake := Ring.contents_take (h.length_buf.symm ▸ hlen) hchunk (h.length_buf.symm ▸ hend)
  rw [h.length_buf] at htake
  unfold BioBio.advance
  rw [h.sizeAdd_eq (by omega) (by omega)]
  split
  · next hleft =>
    have hnext : (if b.offset + chunk = b.size then 0 else b.offset + chunk) =
        (b.offset + chunk) % b.size := by
      split
      · next hwrap => rw [hwrap, Nat.mod_self]
      · exact (Nat.mod_eq_of_lt (by omega)).symm
    refine ⟨⟨h.length_buf, h.size_le, by dsimp only; omega, ?_⟩, rfl, ⟨rfl, rfl⟩, ?_⟩
    · dsimp only
      split <;> omega
    · rw [queue, htake]
      dsimp only [queue]
      rw [hnext]
  · next hempty =>
    have hzero : b.len - chunk = 0 := not_not.mp hempty
    refine ⟨⟨h.length_buf, h.size_le, Nat.zero_le _, by dsimp only; omega⟩, hzero.symm,
      ⟨rfl, rfl⟩, ?_⟩
    rw [queue, htake, hzero]
    rfl

/-- **Reading**: the loop ends, and takes the bytes from the front of the queue. -/
theorem Ok.bioReadLoop (h : b.Ok) (rest : Nat) (hpos : 0 < rest) (hrest : rest ≤ b.len) :
    ∃ b', bioReadLoop b rest = some (b.queue.take rest, b') ∧ b'.Ok ∧ Same b b' ∧
      b.queue = b.queue.take rest ++ b'.queue := by
  fun_induction AwsLc.bioReadLoop b rest with
  | case1 b rest hzero =>
    have hchunk := (h.readChunk_spec hpos hrest).1
    omega
  | case2 b rest hzero hlast =>
    obtain ⟨-, hle, hend⟩ := h.readChunk_spec hpos hrest
    have hall : b.readChunk rest = rest := by omega
    rw [hall] at hend ⊢
    obtain ⟨hok, -, hsame, hqueue⟩ := h.advance hrest hend
    have hlength : ((b.buf.drop b.offset).take rest).length = rest := by
      rw [length_take, length_drop, h.length_buf]
      omega
    have htake : b.queue.take rest = (b.buf.drop b.offset).take rest := by
      rw [hqueue, take_left' hlength]
    exact ⟨_, by rw [htake], hok, hsame, by rw [htake]; exact hqueue⟩
  | case3 b rest hzero hmore ih =>
    obtain ⟨-, hle, hend⟩ := h.readChunk_spec hpos hrest
    obtain ⟨hok, hlen, hsame, hqueue⟩ := h.advance (Nat.le_trans hle hrest) hend
    obtain ⟨b', hloop, hok', hsame', hqueue'⟩ := ih hok (by omega) (by omega)
    have hlength : ((b.buf.drop b.offset).take (b.readChunk rest)).length = b.readChunk rest := by
      rw [length_take, length_drop, h.length_buf]
      omega
    have htake : b.queue.take rest = (b.buf.drop b.offset).take (b.readChunk rest) ++
        (b.advance (b.readChunk rest)).queue.take (rest - b.readChunk rest) := by
      rw [hqueue, take_append, hlength, take_of_length_le (by omega)]
    refine ⟨b', by rw [hloop, htake]; rfl, hok', hsame.trans hsame', ?_⟩
    rw [htake, append_assoc, ← hqueue']
    exact hqueue

theorem Ok.writeOffset_eq (h : b.Ok) : b.writeOffset = (b.len + b.offset) % b.size := by
  have hoffset := h.offset_lt
  have hlen := h.len_le
  unfold writeOffset
  rw [h.sizeAdd_eq (by omega) hlen, Ring.add_mod_of_lt hoffset hlen]
  dsimp only
  split <;> split <;> omega

theorem Ok.writeChunk_spec (h : b.Ok) {rest : Nat} (hpos : 0 < rest)
    (hfree : b.len + rest ≤ b.size) : 0 < b.writeChunk rest ∧ b.writeChunk rest ≤ rest ∧
      b.writeOffset + b.writeChunk rest ≤ b.size := by
  have hoffset : b.writeOffset < b.size := by
    rw [h.writeOffset_eq]
    exact Nat.mod_lt _ (by omega)
  unfold writeChunk
  rw [h.sizeAdd_eq (by omega) (by omega)]
  split <;> omega

theorem Ok.append (h : b.Ok) (data : Bytes) (hfree : b.len + data.length ≤ b.size)
    (hend : b.writeOffset + data.length ≤ b.size) :
    (b.append data).Ok ∧ (b.append data).len = b.len + data.length ∧ Same b (b.append data) ∧
      (b.append data).queue = b.queue ++ data := by
  have hwrite := Ring.contents_write b.len data
    (h.length_buf.symm ▸ h.offset_lt) (h.length_buf.symm ▸ hfree)
    (by rw [h.length_buf, ← h.writeOffset_eq]; exact hend)
  rw [h.length_buf, ← h.writeOffset_eq] at hwrite
  refine ⟨⟨?_, h.size_le, hfree, h.offset_lt⟩, rfl, ⟨rfl, rfl⟩, hwrite⟩
  exact (Overwrite.length_write _ _ _).trans h.length_buf

/-- **Writing**: the loop ends, and adds the bytes at the back of the queue. -/
theorem Ok.bioWriteLoop (h : b.Ok) (data : Bytes) (hpos : 0 < data.length)
    (hfree : b.len + data.length ≤ b.size) :
    ∃ b', bioWriteLoop b data = some b' ∧ b'.Ok ∧ Same b b' ∧ b'.queue = b.queue ++ data := by
  fun_induction AwsLc.bioWriteLoop b data with
  | case1 b data hzero =>
    have hchunk := (h.writeChunk_spec hpos hfree).1
    omega
  | case2 b data hzero hlast =>
    obtain ⟨-, hle, hend⟩ := h.writeChunk_spec hpos hfree
    obtain ⟨hok, -, hsame, hqueue⟩ := h.append data hfree (by omega)
    exact ⟨_, rfl, hok, hsame, hqueue⟩
  | case3 b data hzero hmore ih =>
    obtain ⟨-, hle, hend⟩ := h.writeChunk_spec hpos hfree
    have htake : (data.take (b.writeChunk data.length)).length = b.writeChunk data.length := by
      rw [length_take]
      omega
    obtain ⟨hok, hlen, hsame, hqueue⟩ :=
      h.append (data.take (b.writeChunk data.length)) (by omega) (by omega)
    obtain ⟨b', hloop, hok', hsame', hqueue'⟩ := ih hok (by rw [length_drop]; omega)
      (by rw [hlen, htake, length_drop, hsame.size]; omega)
    refine ⟨b', hloop, hok', hsame.trans hsame', ?_⟩
    rw [hqueue', hqueue, append_assoc, take_append_drop]

end BioBio

structure ReadAnswer (b : BioBio) (len : Nat) (result : BioResult) : Prop where
  retry_iff : result.retryRead = true ↔ b.len = 0 ∧ b.closed = false
  zero_iff : result.ret = 0 ↔ b.len = 0 ∧ b.closed = true
  ret_eq : b.len ≠ 0 → result.ret = min len b.len
  data_eq : result.data = b.queue.take len

/-- The answer to a write of `len` bytes into the buffer `b`. -/
structure WriteAnswer (b : BioBio) (len : Nat) (result : BioResult) : Prop where
  retry_iff : b.closed = false → (result.retryWrite = true ↔ b.len = b.size)
  full : b.closed = false → b.len = b.size → result.ret = -1
  ret_eq : b.closed = false → b.len ≠ b.size → result.ret = min len (b.size - b.len)
  closed : b.closed = true → result.ret = -1 ∧ result.retryWrite = false

def Answers : BioOp → BioResult → Prop
  | .read e len, result => ReadAnswer (pair.buffer e.peer) len result
  | .write e data, result => WriteAnswer (pair.buffer e) data.length result
  | .shutdownWr _, result => result.ret = 1

def accepted (data : Bytes) (result : BioResult) : Bytes := data.take result.ret.toNat

/-- What a call does to the queue of what `e` has written. -/
def flowOf : BioOp × BioResult → List (Fifo.Event UInt8)
  | (.write e' data, result) => if e' = e then [.enter (accepted data result)] else []
  | (.read e' _, result) => if e' = e.peer then [.leave result.data] else []
  | (.shutdownWr _, _) => []

structure StepOk (pair : BioPair) (op : BioOp) (result : BioResult) (pair' : BioPair) : Prop where
  answers : Answers pair op result
  ok : ∀ e, (pair'.buffer e).Ok
  passes : ∀ e, Fifo.Passes (pair.buffer e).queue (flowOf e (op, result)) (pair'.buffer e).queue

variable {pair : BioPair}

variable (hok : ∀ e, (pair.buffer e).Ok)
include hok

omit hok

/-! ### Any interleaving of calls -/

/-- What the calls have done to the queue of what `e` has written. -/
def flow (trace : List (BioOp × BioResult)) : List (Fifo.Event UInt8) :=
  trace.flatMap (flowOf e)

structure RunOk (trace : List (BioOp × BioResult)) (pair : BioPair) : Prop where
  ok : ∀ e, (pair.buffer e).Ok
  passes : ∀ e, Fifo.Passes [] (flow e trace) (pair.buffer e).queue

end AwsLc
