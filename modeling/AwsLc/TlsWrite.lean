import AwsLc.Fifo
import AwsLc.SealRecord
import AwsLc.SslBuffer

/-!
# Writing TLS records (`s3_pkt.cc`, `s3_both.cc`, `ssl_buffer.cc`)

A TLS record is sealed into the write buffer, behind what is left of the pending handshake flight,
and the transport may take a part of it.  `unsent` is what was sealed and not yet accepted, and
every function is a sequence of queue operations on it (`Advances`).

The results of the next calls of `BIO_write` and of the next allocations are lists, and `abort()` is
`none`.  The sums of sizes are sizes of objects in memory and do not overflow.
-/

namespace AwsLc

open List Option SslBuffer

variable {κ : Type}

def SSL_ERROR_WANT_WRITE : Int := 3
def SSL_KEY_UPDATE_NONE : Int := -1

/-- `Span<const uint8_t>`. -/
structure Span where
  data : UInt64
  bytes : Bytes

def Span.size (span : Span) : Nat := span.bytes.length

/-- `subspan(0, len)`. -/
def Span.take (span : Span) (len : Nat) : Span := { span with bytes := span.bytes.take len }

/-- `subspan(pos)`; `none` is `abort()`. -/
def Span.subspan (span : Span) (pos : Nat) : Option Span :=
  if pos > span.size then none
  else some { data := span.data + UInt64.ofNat pos, bytes := span.bytes.drop pos }

/-- `pending_write`: only the pointer and the size are kept. -/
structure PendingWrite where
  data : UInt64
  size : Nat
deriving DecidableEq, Repr

/-- `pending_write` when it is empty. -/
def PendingWrite.none : PendingWrite := ⟨0, 0⟩

/-- `BUF_MEM`: the first `length` bytes of the data, and the capacity. -/
structure BufMem where
  data : Bytes
  max : Nat
deriving DecidableEq, Repr

def BufMem.new : BufMem := ⟨[], 0⟩

def BufMem.reserve (buf : BufMem) (cap : Nat) (malloc : Option Allocation) : Option BufMem :=
  if buf.max ≥ cap then some buf
  else malloc.map fun _ => { buf with max := (cap + 3) / 3 * 4 }

theorem BufMem.reserve_data {buf buf' : BufMem} {cap : Nat} {malloc : Option Allocation}
    (h : buf.reserve cap malloc = some buf') : buf'.data = buf.data := by
  unfold reserve at h
  by_cases hroom : buf.max ≥ cap
  · rw [if_pos hroom] at h
    cases h
    rfl
  · rw [if_neg hroom] at h
    obtain ⟨allocation, -, rfl⟩ := map_eq_some_iff.mp h
    rfl

/-- What happened to records: one was sealed, or the transport accepted bytes. -/
inductive WriteEvent where
  | sealed (type : UInt8) (plaintext record : Bytes)
  | accepted (bytes : Bytes)
deriving DecidableEq, Repr

/-- The part of the connection below `tls_write_app_data`, with the history of what was
    sealed and accepted. -/
structure RecordLayer (κ : Type) extends SealState κ where
  writeBuffer : SslBuffer
  pendingWrite : PendingWrite
  pendingWriteType : UInt8
  pendingFlight : Option BufMem
  pendingFlightOffset : Nat
  pendingHsData : Option BufMem
  keyUpdatePending : Int
  rwstate : Int
  /-- `SSL_MODE_ACCEPT_MOVING_WRITE_BUFFER` is set -/
  acceptMovingWriteBuffer : Bool
  /-- the transport, if one is set -/
  wbio : Option (List Int)
  allocations : List (Option Allocation)
  log : List WriteEvent

variable (ssl : RecordLayer κ)

namespace RecordLayer

/-! ### The write buffer -/

/-- `tls_write_buffer_flush` on a transport that is going to answer `answers`. -/
def tlsWriteBufferFlush (ssl : RecordLayer κ) : List Int → Option (Int × RecordLayer κ)
  | [] =>
    if ssl.writeBuffer.size = 0 then
      some (1, { ssl with writeBuffer := ssl.writeBuffer.clear, wbio := some [] })
    else some (-1, { ssl with rwstate := SSL_ERROR_WANT_WRITE, wbio := some [] })
  | ret :: answers =>
    if ssl.writeBuffer.size = 0 then
      some (1, { ssl with writeBuffer := ssl.writeBuffer.clear, wbio := some (ret :: answers) })
    else if ret ≤ 0 then
      some (ret, { ssl with rwstate := SSL_ERROR_WANT_WRITE, wbio := some answers })
    else do
      let taken := ssl.writeBuffer.contents.take ret.toNat
      let writeBuffer ← ssl.writeBuffer.consume taken.length
      tlsWriteBufferFlush { ssl with writeBuffer, log := ssl.log ++ [.accepted taken] } answers

def sslWriteBufferFlush : Option (Int × RecordLayer κ) :=
  match ssl.wbio with
  | none => some (-1, ssl)
  | some answers => tlsWriteBufferFlush ssl answers

def malloc : Option Allocation × RecordLayer κ :=
  (ssl.allocations.headD none, { ssl with allocations := ssl.allocations.tail })

def newPendingFlight : Option BufMem × RecordLayer κ :=
  match ssl.pendingFlight with
  | some flight => (some flight, ssl)
  | none =>
    match ssl.malloc with
    | (none, ssl) => (none, ssl)
    | (some _, ssl) => (some .new, { ssl with pendingFlight := some .new })

variable (type : UInt8)

def addRecordToFlight (input : Bytes) : Bool × RecordLayer κ :=
  match ssl.newPendingFlight with
  | (none, ssl) => (false, ssl)
  | (some flight, ssl) =>
    let maxOut := input.length + sslMaxSealOverhead ssl.toSealState
    let (allocation, ssl) := ssl.malloc
    match flight.reserve (flight.data.length + maxOut) allocation with
    | none => (false, ssl)
    | some flight =>
      match tlsSealRecord ssl.toSealState maxOut type input with
      | (none, state) =>
        (false, { ssl with toSealState := state, pendingFlight := some flight })
      | (some record, state) =>
        (true, { ssl with
          toSealState := state
          pendingFlight := some { flight with data := flight.data ++ record }
          log := ssl.log ++ [.sealed type input record] })

def tlsFlushPendingHsData : Bool × RecordLayer κ :=
  match ssl.pendingHsData with
  | none => (true, ssl)
  | some data =>
    if data.data = [] then (true, ssl)
    else addRecordToFlight { ssl with pendingHsData := none } SSL3_RT_HANDSHAKE data.data

def badWriteRetry (input : Span) : Bool :=
  ssl.pendingWrite.size ≠ 0 &&
    (ssl.pendingWrite.size > input.size ||
      (!ssl.acceptMovingWriteBuffer && ssl.pendingWrite.data ≠ input.data) ||
      ssl.pendingWriteType ≠ type)

def copyPendingFlight (flight : Bytes) : Option (RecordLayer κ) :=
  if flight = [] then some ssl
  else do
    let writeBuffer ← ssl.writeBuffer.didWrite flight
    return { ssl with writeBuffer, pendingFlight := none, pendingFlightOffset := 0 }

def sealToWriteBuffer (input : Bytes) : Option (Bool × RecordLayer κ) :=
  if input = [] then some (true, ssl)
  else
    match tlsSealRecord ssl.toSealState (ssl.writeBuffer.cap - ssl.writeBuffer.size) type
        input with
    | (none, state) => some (false, { ssl with toSealState := state })
    | (some record, state) => do
      let writeBuffer ← ssl.writeBuffer.didWrite record
      return (true, { ssl with
        toSealState := state
        writeBuffer
        log := ssl.log ++ [.sealed type input record] })

/-- The unsent part of the pending flight; `none` is `abort()`. -/
def remainingFlight : Option Bytes :=
  match ssl.pendingFlight with
  | none => some []
  | some flight =>
    if ssl.pendingFlightOffset > flight.data.length then none
    else some (flight.data.drop ssl.pendingFlightOffset)

/-- `do_tls_write` from the point where the record is put into the write buffer. -/
def writeRecord (input : Span) (flight : Bytes) : Option (Int × Nat × RecordLayer κ) := do
  let maxOut := flight.length +
    if input.bytes = [] then 0 else input.size + sslMaxSealOverhead ssl.toSealState
  if maxOut = 0 then return (1, 0, ssl)
  let headerLen := UInt64.ofNat (flight.length + sslSealAlignPrefixLen ssl.toSealState)
  let (allocation, ssl) := ssl.malloc
  let (ok, writeBuffer) := ssl.writeBuffer.ensureCap headerLen maxOut allocation
  let ssl := { ssl with writeBuffer }
  if ok = false then return (-1, 0, ssl)
  let ssl ← ssl.copyPendingFlight flight
  let (ok, ssl) ← ssl.sealToWriteBuffer type input.bytes
  if ok = false then return (-1, 0, ssl)
  let (ret, ssl) ← sslWriteBufferFlush { ssl with keyUpdatePending := SSL_KEY_UPDATE_NONE }
  if ret ≤ 0 then
    if input.bytes = [] then return (ret, 0, ssl)
    else return (ret, 0, { ssl with
      pendingWrite := ⟨input.data, input.size⟩, pendingWriteType := type })
  return (1, input.size, ssl)

/-- `do_tls_write`: the return value and `*out_bytes_written`. -/
def doTlsWrite (input : Span) : Option (Int × Nat × RecordLayer κ) := do
  if ssl.badWriteRetry type input then return (-1, 0, ssl)
  let (ret, ssl) ← ssl.sslWriteBufferFlush
  if ret ≤ 0 then return (ret, 0, ssl)
  if ssl.pendingWrite.size ≠ 0 then
    return (1, ssl.pendingWrite.size, { ssl with pendingWrite := .none })
  if input.size > SSL3_RT_MAX_PLAIN_LENGTH ∨ ssl.writeBuffer.size > 0 then return (-1, 0, ssl)
  let (ok, ssl) := ssl.tlsFlushPendingHsData
  if ok = false then return (-1, 0, ssl)
  let flight ← ssl.remainingFlight
  ssl.writeRecord type input flight

end RecordLayer

def WriteEvent.toFifo : WriteEvent → Fifo.Event UInt8
  | .sealed _ _ record => .enter record
  | .accepted bytes => .leave bytes

variable (log : List WriteEvent)

def sealedRecords : Bytes :=
  log.flatMap fun
    | .sealed _ _ record => record
    | .accepted _ => []

def acceptedBytes : Bytes :=
  log.flatMap fun
    | .sealed _ _ _ => []
    | .accepted bytes => bytes

def sealedPlaintext (type : UInt8) (log : List WriteEvent) : Bytes :=
  log.flatMap fun
    | .sealed sealedType plaintext _ => if sealedType = type then plaintext else []
    | .accepted _ => []

@[simp] theorem entered_toFifo : Fifo.entered (log.map WriteEvent.toFifo) = sealedRecords log := by
  rw [Fifo.entered, flatMap_map, sealedRecords]
  congr 1
  funext event
  cases event <;> rfl

@[simp] theorem left_toFifo : Fifo.left (log.map WriteEvent.toFifo) = acceptedBytes log := by
  rw [Fifo.left, flatMap_map, acceptedBytes]
  congr 1
  funext event
  cases event <;> rfl

@[simp] theorem sealedPlaintext_append (type : UInt8) (log later : List WriteEvent) :
    sealedPlaintext type (log ++ later) = sealedPlaintext type log ++ sealedPlaintext type later :=
  flatMap_append

namespace RecordLayer

def unsentFlight : Bytes :=
  (ssl.pendingFlight.getD .new).data.drop ssl.pendingFlightOffset

/-- The bytes that were sealed and not accepted, in the order in which they are sent. -/
def unsent : Bytes := ssl.writeBuffer.contents ++ ssl.unsentFlight

structure WellFormed (ssl : RecordLayer κ) : Prop where
  layout : ssl.writeBuffer.Layout
  offset_le : ssl.pendingFlightOffset ≤ (ssl.pendingFlight.getD .new).data.length

structure NoFlight (ssl : RecordLayer κ) : Prop where
  flight : (ssl.pendingFlight.getD .new).data = []
  hsData : (ssl.pendingHsData.getD .new).data = []

/-- From `ssl` to `ssl'` records entered the queue of unsent bytes at its back and bytes
    left it at its front, and `plaintext` was sealed in records of type `type`. -/
def Advances (type : UInt8) (ssl : RecordLayer κ) (plaintext : Bytes) (ssl' : RecordLayer κ) :
    Prop :=
  ssl'.WellFormed ∧ ∃ events, ssl'.log = ssl.log ++ events ∧
    Fifo.Passes ssl.unsent (events.map WriteEvent.toFifo) ssl'.unsent ∧
    sealedPlaintext type events = plaintext

variable {ssl ssl' ssl'' : RecordLayer κ} {type : UInt8}

/-- A change that concerns neither the unsent bytes nor the history. -/
theorem Advances.quiet (hwf : ssl'.WellFormed) (hlog : ssl'.log = ssl.log)
    (hunsent : ssl'.unsent = ssl.unsent) : Advances type ssl [] ssl' := by
  refine ⟨hwf, [], ?_, ?_, rfl⟩
  · rw [hlog, append_nil]
  · rw [hunsent]
    exact Fifo.Passes.nil

theorem Advances.accept (hwf : ssl'.WellFormed) {bytes : Bytes}
    (hlog : ssl'.log = ssl.log ++ [.accepted bytes]) (hunsent : ssl.unsent = bytes ++ ssl'.unsent) :
    Advances type ssl [] ssl' := by
  refine ⟨hwf, [.accepted bytes], hlog, ?_, rfl⟩
  rw [hunsent]
  exact Fifo.Passes.nil.leave bytes

variable {plaintext : Bytes}

theorem Advances.enter (hwf : ssl'.WellFormed) {sealedType : UInt8} {record : Bytes}
    (hlog : ssl'.log = ssl.log ++ [.sealed sealedType plaintext record])
    (hunsent : ssl'.unsent = ssl.unsent ++ record) :
    Advances type ssl (if sealedType = type then plaintext else []) ssl' := by
  refine ⟨hwf, [.sealed sealedType plaintext record], hlog, ?_, ?_⟩
  · rw [hunsent]
    exact Fifo.Passes.nil.enter record
  · rw [sealedPlaintext, flatMap_singleton]

theorem Advances.trans {later : Bytes} (h : Advances type ssl plaintext ssl')
    (h' : Advances type ssl' later ssl'') : Advances type ssl (plaintext ++ later) ssl'' := by
  obtain ⟨-, events, hlog, hpasses, hplaintext⟩ := h
  obtain ⟨hwf, events', hlog', hpasses', hplaintext'⟩ := h'
  refine ⟨hwf, events ++ events', ?_, ?_, ?_⟩
  · rw [hlog', hlog, append_assoc]
  · rw [map_append]
    exact hpasses.trans hpasses'
  · rw [sealedPlaintext_append, hplaintext, hplaintext']

/-! ### What the functions do to the queue -/

theorem contents_eq_nil {buffer : SslBuffer} (h : buffer.Layout) (hsize : buffer.size = 0) :
    buffer.contents = [] :=
  eq_nil_of_length_eq_zero (h.length_contents.trans hsize)

theorem advances_clear (hwf : ssl.WellFormed) (hsize : ssl.writeBuffer.size = 0)
    (wbio : Option (List Int)) :
    Advances type ssl [] { ssl with writeBuffer := ssl.writeBuffer.clear, wbio } := by
  apply Advances.quiet
  · exact ⟨empty_layout _, hwf.offset_le⟩
  · rfl
  · show ssl.writeBuffer.clear.contents ++ ssl.unsentFlight = ssl.unsent
    rw [clear_contents, unsent, contents_eq_nil hwf.layout hsize]

/-- Flushing only moves bytes from the buffer to the transport, and all if it succeeds. -/
theorem tlsWriteBufferFlush_spec (type : UInt8) (hwf : ssl.WellFormed) (answers : List Int) :
    ∃ ret writeBuffer rwstate wbio log, ssl.tlsWriteBufferFlush answers =
        some (ret, { ssl with writeBuffer, rwstate, wbio, log }) ∧
      Advances type ssl [] { ssl with writeBuffer, rwstate, wbio, log } ∧
      (0 < ret → ret = 1 ∧ ∃ inlineBuf, writeBuffer = empty inlineBuf) := by
  induction answers generalizing ssl with
  | nil =>
    rw [tlsWriteBufferFlush]
    by_cases hsize : ssl.writeBuffer.size = 0
    · rw [if_pos hsize]
      exact ⟨1, _, ssl.rwstate, _, ssl.log, rfl, advances_clear hwf hsize _, fun _ => ⟨rfl, _, rfl⟩⟩
    · rw [if_neg hsize]
      exact ⟨-1, ssl.writeBuffer, _, _, ssl.log, rfl,
        Advances.quiet ⟨hwf.layout, hwf.offset_le⟩ rfl rfl, fun hret => by omega⟩
  | cons ret answers ih =>
    rw [tlsWriteBufferFlush]
    by_cases hsize : ssl.writeBuffer.size = 0
    · rw [if_pos hsize]
      exact ⟨1, _, ssl.rwstate, _, ssl.log, rfl, advances_clear hwf hsize _, fun _ => ⟨rfl, _, rfl⟩⟩
    rw [if_neg hsize]
    by_cases hret : ret ≤ 0
    · rw [if_pos hret]
      exact ⟨ret, ssl.writeBuffer, _, _, ssl.log, rfl,
        Advances.quiet ⟨hwf.layout, hwf.offset_le⟩ rfl rfl, fun hpos => by omega⟩
    rw [if_neg hret]
    have htaken : (ssl.writeBuffer.contents.take ret.toNat).length ≤ ssl.writeBuffer.size := by
      rw [← hwf.layout.length_contents, length_take]
      exact Nat.min_le_right _ _
    obtain ⟨buffer, hconsume, hlayout, hcontents⟩ :=
      consume_contents hwf.layout htaken
    dsimp only
    rw [hconsume]
    have hrest : ssl.writeBuffer.contents.take ret.toNat ++ buffer.contents =
        ssl.writeBuffer.contents := by
      rw [hcontents, length_take, ← drop_eq_drop_min, take_append_drop]
    have hstep : Advances type ssl [] { ssl with
        writeBuffer := buffer
        log := ssl.log ++ [.accepted (ssl.writeBuffer.contents.take ret.toNat)] } := by
      apply Advances.accept
      · exact ⟨hlayout, hwf.offset_le⟩
      · rfl
      · show ssl.writeBuffer.contents ++ ssl.unsentFlight =
          ssl.writeBuffer.contents.take ret.toNat ++ (buffer.contents ++ ssl.unsentFlight)
        rw [← append_assoc, hrest]
    obtain ⟨final, writeBuffer, rwstate, wbio, log, hflush, hadvances, hdone⟩ := ih hstep.1
    exact ⟨final, writeBuffer, rwstate, wbio, log, hflush, hstep.trans hadvances, hdone⟩

theorem sslWriteBufferFlush_spec (type : UInt8) (hwf : ssl.WellFormed) :
    ∃ ret writeBuffer rwstate wbio log,
      ssl.sslWriteBufferFlush = some (ret, { ssl with writeBuffer, rwstate, wbio, log }) ∧
      Advances type ssl [] { ssl with writeBuffer, rwstate, wbio, log } ∧
      (0 < ret → ret = 1 ∧ ∃ inlineBuf, writeBuffer = empty inlineBuf) := by
  rw [sslWriteBufferFlush]
  cases ssl.wbio with
  | none =>
    exact ⟨-1, ssl.writeBuffer, ssl.rwstate, ssl.wbio, ssl.log, rfl,
      Advances.quiet hwf rfl rfl, fun hret => by omega⟩
  | some answers => exact tlsWriteBufferFlush_spec type hwf answers

theorem newPendingFlight_spec (type : UInt8) (hwf : ssl.WellFormed) :
    ∃ flight pendingFlight allocations,
      ssl.newPendingFlight = (flight, { ssl with pendingFlight, allocations }) ∧
      Advances type ssl [] { ssl with pendingFlight, allocations } ∧
      (∀ created, flight = some created → pendingFlight = some created) := by
  unfold newPendingFlight
  cases hflight : ssl.pendingFlight with
  | some flight =>
    exact ⟨some flight, ssl.pendingFlight, ssl.allocations, rfl, Advances.quiet hwf rfl rfl,
      fun created hcreated => hflight.trans hcreated⟩
  | none =>
    have hoffset : ssl.pendingFlightOffset ≤ 0 := by
      have hle := hwf.offset_le
      rwa [hflight] at hle
    have hquiet : ∀ pendingFlight : Option BufMem, (pendingFlight.getD .new).data = [] →
        ∀ allocations, Advances type ssl [] { ssl with pendingFlight, allocations } := by
      intro pendingFlight hempty allocations
      apply Advances.quiet
      · refine ⟨hwf.layout, ?_⟩
        dsimp only
        rw [hempty]
        exact hoffset
      · rfl
      · show _ ++ List.drop _ (pendingFlight.getD .new).data =
          _ ++ List.drop _ (ssl.pendingFlight.getD .new).data
        rw [hempty, hflight]
        rfl
    rw [malloc]
    cases ssl.allocations.headD none with
    | none => exact ⟨none, ssl.pendingFlight, _, rfl, hquiet _ (by rw [hflight]; rfl) _, nofun⟩
    | some allocation => exact ⟨some .new, some .new, _, rfl, hquiet _ rfl _, fun _ h => h⟩

theorem Advances.reserveFlight {flight reserved : BufMem} (hwf : ssl.WellFormed)
    (hflight : ssl.pendingFlight = some flight) (hdata : reserved.data = flight.data)
    (state : SealState κ) (allocations : List (Option Allocation)) :
    Advances type ssl [] { ssl with
      toSealState := state, pendingFlight := some reserved, allocations } := by
  have hle := hwf.offset_le
  rw [hflight] at hle
  apply Advances.quiet
  · refine ⟨hwf.layout, ?_⟩
    show ssl.pendingFlightOffset ≤ reserved.data.length
    rw [hdata]
    exact hle
  · rfl
  · show _ ++ List.drop _ reserved.data = _ ++ List.drop _ (ssl.pendingFlight.getD .new).data
    rw [hdata, hflight]
    rfl

/-- A record that is added to the flight is sealed behind everything that is unsent. -/
theorem addRecordToFlight_spec (type : UInt8) (hwf : ssl.WellFormed) (sealedType : UInt8)
    (input : Bytes) : ∃ ok state pendingFlight allocations log,
      ssl.addRecordToFlight sealedType input =
        (ok, { ssl with toSealState := state, pendingFlight, allocations, log }) ∧
      Advances type ssl (if ok = true ∧ sealedType = type then input else [])
        { ssl with toSealState := state, pendingFlight, allocations, log } := by
  obtain ⟨flight, created, allocations, hnew, hcreated, hsome⟩ := newPendingFlight_spec type hwf
  unfold addRecordToFlight
  rw [hnew]
  cases flight with
  | none => exact ⟨false, ssl.toSealState, created, allocations, ssl.log, rfl, hcreated⟩
  | some flight =>
    cases hsome flight rfl
    dsimp only [malloc]
    cases hreserve : flight.reserve _ (allocations.headD none) with
    | none =>
      exact ⟨false, ssl.toSealState, some flight, _, ssl.log, rfl,
        hcreated.trans (Advances.reserveFlight hcreated.1 rfl rfl _ _)⟩
    | some reserved =>
      have hdata := BufMem.reserve_data hreserve
      dsimp only
      cases hseal : tlsSealRecord ssl.toSealState
          (input.length + sslMaxSealOverhead ssl.toSealState) sealedType input with
      | mk result state =>
        cases result with
        | none =>
          exact ⟨false, state, some reserved, _, ssl.log, rfl,
            hcreated.trans (Advances.reserveFlight hcreated.1 rfl hdata _ _)⟩
        | some record =>
          refine ⟨true, state, some { reserved with data := reserved.data ++ record }, _, _, rfl,
            ?_⟩
          have hoffset : ssl.pendingFlightOffset ≤ flight.data.length := hcreated.1.offset_le
          have henter : Advances type { ssl with pendingFlight := some flight, allocations }
              (if sealedType = type then input else []) { ssl with
                toSealState := state
                pendingFlight := some { reserved with data := reserved.data ++ record }
                allocations := allocations.tail
                log := ssl.log ++ [.sealed sealedType input record] } := by
            apply Advances.enter
            · refine ⟨hwf.layout, ?_⟩
              show ssl.pendingFlightOffset ≤ (reserved.data ++ record).length
              rw [length_append, hdata]
              omega
            · rfl
            · show ssl.writeBuffer.contents ++
                  (reserved.data ++ record).drop ssl.pendingFlightOffset =
                ssl.writeBuffer.contents ++ flight.data.drop ssl.pendingFlightOffset ++ record
              rw [hdata, drop_append_of_le_length hoffset, append_assoc]
          simpa using hcreated.trans henter

/-- The handshake data becomes a record of the flight, and is dropped if that fails. -/
theorem tlsFlushPendingHsData_spec (hwf : ssl.WellFormed) (htype : type ≠ SSL3_RT_HANDSHAKE) :
    ∃ ok state pendingFlight pendingHsData allocations log,
      ssl.tlsFlushPendingHsData = (ok, { ssl with
        toSealState := state, pendingFlight, pendingHsData, allocations, log }) ∧
      Advances type ssl [] { ssl with
        toSealState := state, pendingFlight, pendingHsData, allocations, log } ∧
      (ssl.NoFlight → pendingFlight = ssl.pendingFlight ∧ pendingHsData = ssl.pendingHsData) := by
  unfold tlsFlushPendingHsData
  split
  · exact ⟨true, ssl.toSealState, ssl.pendingFlight, ssl.pendingHsData, ssl.allocations, ssl.log,
      rfl, Advances.quiet hwf rfl rfl, fun _ => ⟨rfl, rfl⟩⟩
  · rename_i data hdata
    by_cases hempty : data.data = []
    · rw [if_pos hempty]
      exact ⟨true, ssl.toSealState, ssl.pendingFlight, ssl.pendingHsData, ssl.allocations, ssl.log,
        rfl, Advances.quiet hwf rfl rfl, fun _ => ⟨rfl, rfl⟩⟩
    · rw [if_neg hempty]
      have htaken : Advances type ssl [] { ssl with pendingHsData := none } :=
        Advances.quiet ⟨hwf.layout, hwf.offset_le⟩ rfl rfl
      obtain ⟨ok, state, pendingFlight, allocations, log, hadd, hadvances⟩ :=
        addRecordToFlight_spec type htaken.1 SSL3_RT_HANDSHAKE data.data
      rw [if_neg (fun h => htype h.2.symm)] at hadvances
      refine ⟨ok, state, pendingFlight, none, allocations, log, hadd, htaken.trans hadvances, ?_⟩
      intro hnone
      have hhsData := hnone.hsData
      rw [hdata] at hhsData
      exact absurd hhsData hempty

theorem remainingFlight_eq (hwf : ssl.WellFormed) :
    ssl.remainingFlight = some ssl.unsentFlight := by
  have hle := hwf.offset_le
  unfold remainingFlight unsentFlight
  split
  · rename_i hflight
    rw [hflight]
    exact congrArg some drop_nil.symm
  · rename_i flight hflight
    rw [hflight, getD_some] at hle
    rw [if_neg (by omega), hflight, getD_some]

theorem copyPendingFlight_spec (type : UInt8) (hwf : ssl.WellFormed)
    (hroom : ssl.unsentFlight.length ≤ ssl.writeBuffer.cap - ssl.writeBuffer.size) :
    ∃ writeBuffer pendingFlight pendingFlightOffset, ssl.copyPendingFlight ssl.unsentFlight =
        some { ssl with writeBuffer, pendingFlight, pendingFlightOffset } ∧
      Advances type ssl [] { ssl with writeBuffer, pendingFlight, pendingFlightOffset } ∧
      (pendingFlight.getD .new).data.drop pendingFlightOffset = [] ∧
      (ssl.NoFlight → (pendingFlight.getD .new).data = []) := by
  unfold copyPendingFlight
  by_cases hflight : ssl.unsentFlight = []
  · rw [if_pos hflight]
    exact ⟨_, _, _, rfl, Advances.quiet hwf rfl rfl, hflight, fun hnone => hnone.flight⟩
  · rw [if_neg hflight]
    obtain ⟨buffer, hwrite, hlayout, hcontents, -⟩ := didWrite_contents hwf.layout hroom
    rw [hwrite]
    refine ⟨buffer, none, 0, rfl, ?_, rfl, fun _ => rfl⟩
    apply Advances.quiet
    · exact ⟨hlayout, Nat.le_refl _⟩
    · rfl
    · show buffer.contents ++ [] = ssl.writeBuffer.contents ++ ssl.unsentFlight
      rw [hcontents, append_nil]

theorem sealToWriteBuffer_spec (type : UInt8) (hwf : ssl.WellFormed)
    (hflight : ssl.unsentFlight = []) (input : Bytes) : ∃ ok state writeBuffer log,
      ssl.sealToWriteBuffer type input =
        some (ok, { ssl with toSealState := state, writeBuffer, log }) ∧
      Advances type ssl (if ok = true then input else [])
        { ssl with toSealState := state, writeBuffer, log } := by
  unfold sealToWriteBuffer
  by_cases hinput : input = []
  · rw [if_pos hinput, hinput]
    exact ⟨true, _, _, _, rfl, Advances.quiet hwf rfl rfl⟩
  rw [if_neg hinput]
  cases hseal : tlsSealRecord ssl.toSealState (ssl.writeBuffer.cap - ssl.writeBuffer.size)
      type input with
  | mk result state =>
    cases result with
    | none =>
      exact ⟨false, state, _, _, rfl, Advances.quiet ⟨hwf.layout, hwf.offset_le⟩ rfl rfl⟩
    | some record =>
      obtain ⟨buffer, hwrite, hlayout, hcontents, -⟩ :=
        didWrite_contents hwf.layout (tlsSealRecord_length hseal)
      dsimp only
      rw [hwrite]
      refine ⟨true, state, buffer, _, rfl, ?_⟩
      have henter : Advances type ssl (if type = type then input else []) { ssl with
          toSealState := state
          writeBuffer := buffer
          log := ssl.log ++ [.sealed type input record] } := by
        apply Advances.enter
        · exact ⟨hlayout, hwf.offset_le⟩
        · rfl
        · show buffer.contents ++ ssl.unsentFlight =
            ssl.writeBuffer.contents ++ ssl.unsentFlight ++ record
          rw [hcontents, hflight, append_nil, append_nil]
      rwa [if_pos rfl] at henter ⊢

/-- What a call of `do_tls_write` can come to: the return value, the reported size, the
    plaintext that was sealed and the pending write it leaves. -/
inductive WriteOutcome (pending : PendingWrite) (input : Span) :
    Int → Nat → Bytes → PendingWrite → Prop where
  /-- nothing was sealed -/
  | failed {ret : Int} : ret ≤ 0 → WriteOutcome pending input ret 0 [] pending
  /-- the pending write was completed -/
  | resumed : pending.size ≠ 0 → pending.size ≤ input.size →
      WriteOutcome pending input 1 pending.size [] .none
  /-- the input was sealed and sent -/
  | completed : pending.size = 0 → WriteOutcome pending input 1 input.size input.bytes pending
  /-- the input was sealed and is pending now -/
  | stalled {ret : Int} : ret ≤ 0 → pending.size = 0 →
      WriteOutcome pending input ret 0 input.bytes ⟨input.data, input.size⟩

theorem WriteOutcome.written_of_failed {pending pending' : PendingWrite} {input : Span} {ret : Int}
    {written : Nat} (h : WriteOutcome pending input ret written plaintext pending') (hret : ret ≤ 0)
    : written = 0 := by
  cases h with
  | failed _ => rfl
  | resumed _ _ => exact absurd hret (by decide)
  | completed _ => exact absurd hret (by decide)
  | stalled _ _ => rfl

theorem WriteOutcome.written_of_succeeded {pending pending' : PendingWrite} {input : Span}
    {ret : Int} {written : Nat} (h : WriteOutcome pending input ret written plaintext pending')
    (hret : ¬ ret ≤ 0) : ret = 1 ∧ written ≤ input.size ∧ (0 < input.size → 0 < written) := by
  cases h with
  | failed hfailed => exact absurd hfailed hret
  | resumed hpending hle => exact ⟨rfl, hle, fun _ => Nat.pos_of_ne_zero hpending⟩
  | completed _ => exact ⟨rfl, Nat.le_refl _, fun hpos => hpos⟩
  | stalled hfailed _ => exact absurd hfailed hret

/-- What is known of a call of `do_tls_write` from `ssl` to `ssl'`. -/
structure Wrote (type : UInt8) (ssl : RecordLayer κ) (input : Span) (ret : Int) (written : Nat)
    (plaintext : Bytes) (ssl' : RecordLayer κ) : Prop where
  advances : Advances type ssl plaintext ssl'
  outcome : WriteOutcome ssl.pendingWrite input ret written plaintext ssl'.pendingWrite
  noFlight : ssl.NoFlight → ssl'.NoFlight

theorem Advances.setPending (h : Advances type ssl plaintext ssl') (pendingWrite : PendingWrite)
    (pendingWriteType : UInt8) :
    Advances type ssl plaintext { ssl' with pendingWrite, pendingWriteType } := by
  obtain ⟨hwf, hevents⟩ := h
  exact ⟨⟨hwf.layout, hwf.offset_le⟩, hevents⟩

theorem writeRecord_spec (type : UInt8) (input : Span) (hwf : ssl.WellFormed)
    (hempty : ssl.writeBuffer.contents = []) (hpending : ssl.pendingWrite.size = 0) :
    ∃ ret written ssl' plaintext,
      ssl.writeRecord type input ssl.unsentFlight = some (ret, written, ssl') ∧
      Wrote type ssl input ret written plaintext ssl' := by
  unfold writeRecord
  dsimp only [malloc]
  generalize hmaxOut : ssl.unsentFlight.length + (if input.bytes = [] then 0
    else input.size + sslMaxSealOverhead ssl.toSealState) = maxOut
  by_cases hnothing : maxOut = 0
  · -- there is neither a flight nor any input
    rw [if_pos hnothing]
    have hinput : input.bytes = [] := by
      by_contra hne
      rw [if_neg hne] at hmaxOut
      have hpos := length_pos_iff.mpr hne
      rw [Span.size] at hmaxOut
      omega
    have hdone : WriteOutcome ssl.pendingWrite input 1 input.size input.bytes ssl.pendingWrite :=
      .completed hpending
    rw [Span.size, hinput] at hdone
    exact ⟨1, 0, ssl, [], rfl, Advances.quiet hwf rfl rfl, hdone, id⟩
  rw [if_neg hnothing]
  generalize hensure : ssl.writeBuffer.ensureCap _ _ _ = ensured
  obtain ⟨ok, writeBuffer⟩ := ensured
  obtain ⟨hlayout, hcontents, hcap⟩ := ensureCap_contents hwf.layout
    (UInt64.ofNat (ssl.unsentFlight.length + sslSealAlignPrefixLen ssl.toSealState)) maxOut
    (ssl.allocations.headD none)
  rw [hensure] at hlayout hcontents hcap
  dsimp only at hlayout hcontents hcap ⊢
  have hgrown : Advances type ssl []
      { ssl with allocations := ssl.allocations.tail, writeBuffer } := by
    apply Advances.quiet
    · exact ⟨hlayout, hwf.offset_le⟩
    · rfl
    · show writeBuffer.contents ++ ssl.unsentFlight = ssl.writeBuffer.contents ++ ssl.unsentFlight
      rw [hcontents]
  cases ok with
  | false => exact ⟨-1, 0, _, [], rfl, hgrown, .failed (by decide), fun h => ⟨h.flight, h.hsData⟩⟩
  | true =>
    have hsize : writeBuffer.size = 0 := by
      rw [← hlayout.length_contents, hcontents, hempty]
      rfl
    have hroom : ssl.unsentFlight.length ≤ writeBuffer.cap - writeBuffer.size := by
      have := hcap rfl
      omega
    obtain ⟨copied, pendingFlight, pendingFlightOffset, hcopy, hcopied, hdrained, hnone⟩ :=
      copyPendingFlight_spec type hgrown.1 hroom
    obtain ⟨ok, state, filled, log, hseal, hsealed⟩ :=
      sealToWriteBuffer_spec type hcopied.1 hdrained input.bytes
    have hbefore := (hgrown.trans hcopied).trans hsealed
    have hnone' : ssl.NoFlight → (pendingFlight.getD .new).data = [] := fun h =>
      hnone ⟨h.flight, h.hsData⟩
    change copyPendingFlight _ ssl.unsentFlight = _ at hcopy
    simp only [Bool.true_eq_false, if_false, hcopy, hseal, bind_eq_bind, bind_some]
    cases ok with
    | false => exact ⟨-1, 0, _, _, rfl, hbefore, .failed (by decide), fun h => ⟨hnone' h, h.hsData⟩⟩
    | true =>
      have huncorked : Advances type ssl ([] ++ [] ++ input.bytes) { ssl with
          allocations := ssl.allocations.tail, toSealState := state, writeBuffer := filled, log,
          pendingFlight, pendingFlightOffset, keyUpdatePending := SSL_KEY_UPDATE_NONE } := by
        obtain ⟨hwf', hevents⟩ := hbefore
        exact ⟨⟨hwf'.layout, hwf'.offset_le⟩, hevents⟩
      obtain ⟨ret, flushed, rwstate, wbio, log', hflush, hflushed, hret⟩ :=
        sslWriteBufferFlush_spec type huncorked.1
      have hafter := huncorked.trans hflushed
      rw [append_nil, nil_append, nil_append] at hafter
      rw [hflush]
      simp only [bind_some]
      by_cases hstalled : ret ≤ 0
      · rw [if_pos hstalled]
        by_cases hinput : input.bytes = []
        · rw [if_pos hinput]
          rw [hinput] at hafter
          exact ⟨ret, 0, _, [], rfl, hafter, .failed hstalled, fun h => ⟨hnone' h, h.hsData⟩⟩
        · rw [if_neg hinput]
          exact ⟨ret, 0, _, _, rfl, hafter.setPending _ type, .stalled hstalled hpending,
            fun h => ⟨hnone' h, h.hsData⟩⟩
      · rw [if_neg hstalled]
        exact ⟨1, input.size, _, _, rfl, hafter, .completed hpending, fun h => ⟨hnone' h, h.hsData⟩⟩

/-- **One record.**  A call of `do_tls_write` returns, moves bytes through the queue of
    unsent bytes, and comes to one of four outcomes. -/
theorem doTlsWrite_spec (type : UInt8) (htype : type ≠ SSL3_RT_HANDSHAKE) (hwf : ssl.WellFormed)
    (input : Span) : ∃ ret written ssl' plaintext,
      ssl.doTlsWrite type input = some (ret, written, ssl') ∧
      Wrote type ssl input ret written plaintext ssl' := by
  unfold doTlsWrite
  by_cases hbad : ssl.badWriteRetry type input = true
  · rw [if_pos hbad]
    exact ⟨-1, 0, ssl, [], rfl, Advances.quiet hwf rfl rfl, .failed (by decide), id⟩
  rw [if_neg hbad]
  obtain ⟨ret, flushed, rwstate, wbio, log, hflush, hflushed, hret⟩ :=
    sslWriteBufferFlush_spec type hwf
  rw [hflush]
  simp only [bind_eq_bind, bind_some]
  by_cases hfailed : ret ≤ 0
  · rw [if_pos hfailed]
    exact ⟨ret, 0, _, [], rfl, hflushed, .failed hfailed, fun h => ⟨h.flight, h.hsData⟩⟩
  rw [if_neg hfailed]
  by_cases hpending : ssl.pendingWrite.size ≠ 0
  · rw [if_pos hpending]
    have hfits : ssl.pendingWrite.size ≤ input.size := by
      by_contra hlong
      apply hbad
      simp [badWriteRetry, hpending, Nat.lt_of_not_le hlong]
    exact ⟨1, _, _, [], rfl, hflushed.setPending .none ssl.pendingWriteType,
      .resumed hpending hfits, fun h => ⟨h.flight, h.hsData⟩⟩
  rw [if_neg hpending]
  by_cases hlarge : input.size > SSL3_RT_MAX_PLAIN_LENGTH ∨ flushed.size > 0
  · rw [if_pos hlarge]
    exact ⟨-1, 0, _, [], rfl, hflushed, .failed (by decide), fun h => ⟨h.flight, h.hsData⟩⟩
  rw [if_neg hlarge]
  obtain ⟨ok, state, pendingFlight, pendingHsData, allocations, log', hhs, hadded, hkept⟩ :=
    tlsFlushPendingHsData_spec hflushed.1 htype
  have hbefore := hflushed.trans hadded
  have hnone : ssl.NoFlight → (pendingFlight.getD .new).data = [] ∧
      (pendingHsData.getD .new).data = [] := by
    intro h
    obtain ⟨rfl, rfl⟩ := hkept ⟨h.flight, h.hsData⟩
    exact ⟨h.flight, h.hsData⟩
  rw [hhs]
  cases ok with
  | false =>
    exact ⟨-1, 0, _, _, rfl, hbefore, .failed (by decide), fun h => ⟨(hnone h).1, (hnone h).2⟩⟩
  | true =>
    simp only [Bool.true_eq_false, if_false, remainingFlight_eq hadded.1, bind_some]
    obtain ⟨-, inlineBuf, rfl⟩ := hret (by omega)
    obtain ⟨ret', written, ssl', plaintext, hwrite, hwritten⟩ :=
      writeRecord_spec type input hadded.1 rfl (not_not.mp hpending)
    exact ⟨ret', written, ssl', plaintext, hwrite, hbefore.trans hwritten.advances,
      hwritten.outcome, fun h => hwritten.noFlight ⟨(hnone h).1, (hnone h).2⟩⟩

end RecordLayer

end AwsLc
