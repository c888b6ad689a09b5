import AwsLc.DtlsHandshake
import AwsLc.SealRecord

/-!
# Sending DTLS flights (`d1_both.cc`)

Outgoing messages are queued by `add_outgoing` and sent by `send_flight` in packets of at most the
MTU.  A packet holds several records; a message is cut wherever the room in the packet ends.
`Cursor` is the progress (`outgoing_written`, `outgoing_offset`) read as what is left to send.
-/

namespace AwsLc

open AwsLc.BigEndian AwsLc.Memory List Option

variable {κ : Type}

/-! ### The queue -/

structure DtlsOutgoingMessage where
  data : Bytes
  epoch : UInt16
  isCcs : Bool
deriving DecidableEq, Repr

/-- The fields that queueing and sending a flight reads or writes.  At most
    `SSL_MAX_HANDSHAKE_FLIGHT` messages are queued. -/
structure DtlsFlightState (κ : Type) extends DtlsWriteState κ where
  writeShutdown : SslShutdown
  hasWbio : Bool
  handshakeWriteSeq : UInt16
  outgoingMessages : List DtlsOutgoingMessage
  outgoingWritten : Nat
  outgoingOffset : Nat
  outgoingMessagesComplete : Bool
  mtu : Nat
  /-- `SSL_OP_NO_QUERY_MTU` is set -/
  noQueryMtu : Bool
  flight_le : outgoingMessages.length ≤ SSL_MAX_HANDSHAKE_FLIGHT

open DtlsFlightState

/-- `dtls1_init_message`, the body, and `dtls1_finish_message`, which copies the
    fragment length over the message length. -/
def dtls1FinishMessage (writeSeq : UInt16) (type : UInt8) (body : Bytes) : Option Bytes := do
  let child ← cbbAddU24LengthPrefixed body
  let out := cbbAddU8 type ++ beBytes 3 0 ++ cbbAddU16 writeSeq ++ beBytes 3 0 ++ child
  if out.length < DTLS1_HM_HEADER_LENGTH then none
  return memcpyAt out 1 ((out.drop (DTLS1_HM_HEADER_LENGTH - 3)).take 3)

variable (ssl : DtlsFlightState κ)

def dtlsClearOutgoingMessages : DtlsFlightState κ :=
  { ssl with
    outgoingMessages := []
    outgoingWritten := 0
    outgoingOffset := 0
    outgoingMessagesComplete := false
    flight_le := Nat.zero_le _ }

/-- The start of `add_outgoing`: a new flight means that the peer's was received,
    so the old one is dropped. -/
def startOutgoing : DtlsFlightState κ :=
  if ssl.outgoingMessagesComplete then dtlsClearOutgoingMessages ssl else ssl

/-- The rest of `add_outgoing`; `transcriptOk` is the result of updating the transcript. -/
def pushOutgoing (transcriptOk : Bool) (ssl : DtlsFlightState κ) (isCcs : Bool) (data : Bytes) :
    Option (DtlsFlightState κ) :=
  if h : SSL_MAX_HANDSHAKE_FLIGHT ≤ ssl.outgoingMessages.length ∨ 0xffffffff < data.length then none
  else if !isCcs && !transcriptOk then none
  else some { ssl with
    handshakeWriteSeq := if isCcs then ssl.handshakeWriteSeq else ssl.handshakeWriteSeq + 1
    outgoingMessages := ssl.outgoingMessages ++ [{ data, epoch := ssl.wEpoch, isCcs }]
    flight_le := by
      rw [List.length_append, List.length_singleton]
      omega }

def addOutgoing (transcriptOk : Bool) (ssl : DtlsFlightState κ) (isCcs : Bool) (data : Bytes) :
    Option (DtlsFlightState κ) :=
  pushOutgoing transcriptOk (startOutgoing ssl) isCcs data

/-! ### Sending -/

def kMinMTU : Nat := 256 - 28
def kDefaultMTU : Nat := 1500 - 28

/-- `dtls1_update_mtu`; `query` is the answer of the BIO.  The assertion at its end
    is not needed for what follows. -/
def dtls1UpdateMtu (query : Int) (ssl : DtlsFlightState κ) : DtlsFlightState κ :=
  if ssl.mtu < kMinMTU ∧ !ssl.noQueryMtu then
    { ssl with
      mtu := if 0 ≤ query ∧ query ≤ 2 ^ 30 ∧ kMinMTU ≤ query.toNat then query.toNat
        else kDefaultMTU }
  else ssl

structure SealedRecord where
  type : UInt8
  plaintext : Bytes
  bytes : Bytes
deriving DecidableEq, Repr

/-- `seal_result_t`, with the record written where there is one. -/
inductive SealResult where
  | error
  | noProgress
  | partialMessage (record : SealedRecord)
  | success (record : SealedRecord)
deriving DecidableEq, Repr

/-- The choice of the epoch at the start of `seal_next_message`. -/
def dtls1MessageEpoch (msg : DtlsOutgoingMessage) : Option Dtls1UseEpoch :=
  if 1 ≤ ssl.wEpoch ∧ msg.epoch = ssl.wEpoch - 1 then some .previous
  else if msg.epoch ≠ ssl.wEpoch then none
  else some .current

def DtlsFlightState.sealRecord (maxOut : Nat) (type : UInt8)
    (input : Bytes) (useEpoch : Dtls1UseEpoch) : Option SealedRecord × DtlsFlightState κ :=
  ((dtlsSealRecord ssl.toDtlsWriteState maxOut type input useEpoch).1.map fun bytes =>
      { type, plaintext := input, bytes },
    { ssl with
      toDtlsWriteState := (dtlsSealRecord ssl.toDtlsWriteState maxOut type input useEpoch).2 })

/-- The fragment that `seal_next_message` assembles in a buffer of `maxFrag` bytes. -/
def assembleFragment (hdr : HmHeader) (offset : Nat) (contents : Bytes) (maxFrag : Nat) :
    Option Bytes := do
  let msgLen ← cbbAddU24 hdr.msgLen
  let fragOff ← cbbAddU24 offset
  let child ← cbbAddU24LengthPrefixed contents
  let frag := cbbAddU8 hdr.type ++ msgLen ++ cbbAddU16 hdr.seq ++ fragOff ++ child
  if maxFrag < frag.length then none
  return frag

/-- `DTLS messages are serialized as a single fragment`: its header, its body, and
    the part of the body that is still to be sent. -/
def dtls1ParseOutgoing (data : Bytes) (offset : Nat) : Option (HmHeader × Bytes × Bytes) := do
  let (hdr, body, cbs) ← dtls1ParseFragment data
  if hdr.fragOff ≠ 0 ∨ hdr.fragLen ≠ body.length ∨ hdr.msgLen ≠ body.length then none
  let unsent ← cbsSkip body offset
  if cbs ≠ [] then none
  return (hdr, body, unsent)

def sealNextMessage (maxOut : Nat) (msg : DtlsOutgoingMessage) : SealResult × DtlsFlightState κ :=
  match dtls1MessageEpoch ssl msg with
  | none => (.error, ssl)
  | some useEpoch =>
    let overhead := dtlsMaxSealOverhead ssl.toDtlsWriteState useEpoch
    let prefixLen := dtlsSealPrefixLen ssl.toDtlsWriteState useEpoch
    if msg.isCcs then
      -- Check there is room for the ChangeCipherSpec.
      if maxOut < 1 + overhead then (.noProgress, ssl)
      else
        match ssl.sealRecord maxOut SSL3_RT_CHANGE_CIPHER_SPEC [SSL3_MT_CCS] useEpoch with
        | (none, ssl) => (.error, ssl)
        | (some record, ssl) => (.success record, ssl)
    else
      match dtls1ParseOutgoing msg.data ssl.outgoingOffset with
      | none => (.error, ssl)
      | some (hdr, _, unsent) =>
        -- Determine how much progress can be made.
        if maxOut < DTLS1_HM_HEADER_LENGTH + 1 + overhead ∨ maxOut < prefixLen then
          (.noProgress, ssl)
        else
          let todo := min unsent.length (maxOut - DTLS1_HM_HEADER_LENGTH - overhead)
          match assembleFragment hdr ssl.outgoingOffset (unsent.take todo)
              (maxOut - prefixLen) with
          | none => (.error, ssl)
          | some frag =>
            match ssl.sealRecord maxOut SSL3_RT_HANDSHAKE frag useEpoch with
            | (none, ssl) => (.error, ssl)
            | (some record, ssl) =>
              if todo = unsent.length then
                -- The next message is complete.
                (.success record, { ssl with outgoingOffset := 0 })
              else
                (.partialMessage record,
                  { ssl with outgoingOffset := ssl.outgoingOffset + todo })

variable (packet : List SealedRecord)

/-- The end of `seal_next_packet`: for an empty packet the MTU was too small for any progress. -/
def packetFull : Option (List SealedRecord) :=
  if packet = [] then none else some packet

/-- The loop of `seal_next_packet`, with `maxOut` bytes left in the packet. -/
def sealPacketLoop : Nat → DtlsFlightState κ → Nat → List SealedRecord →
    Option (List SealedRecord) × DtlsFlightState κ
  | 0, ssl, _, packet => (packetFull packet, ssl)
  | fuel + 1, ssl, maxOut, packet =>
    match ssl.outgoingMessages[ssl.outgoingWritten]? with
    | none => (packetFull packet, ssl)
    | some msg =>
      match sealNextMessage ssl maxOut msg with
      | (.error, ssl) => (none, ssl)
      | (.noProgress, ssl) => (packetFull packet, ssl)
      | (.partialMessage record, ssl) => (packetFull (packet ++ [record]), ssl)
      | (.success record, ssl) =>
        sealPacketLoop fuel { ssl with outgoingWritten := ssl.outgoingWritten + 1 }
          (maxOut - record.bytes.length) (packet ++ [record])

/-- `seal_next_packet`, with one turn of the loop for each message left. -/
def sealNextPacket (maxOut : Nat) : Option (List SealedRecord) × DtlsFlightState κ :=
  sealPacketLoop (ssl.outgoingMessages.length - ssl.outgoingWritten) ssl maxOut []

def packetBytes : Bytes := packet.flatMap SealedRecord.bytes

/-- What `send_flight` gets: the MTU, whether there is memory, and the results of the BIO. -/
structure FlightEnv where
  queryMtu : Int
  allocOk : Bool
  bioWrite : Nat → Bytes → Int
  bioFlush : Int

/-- How `send_flight` returns. -/
inductive SendFlight where
  | success
  | error
  | bioWriteFailed
  | bioFlushFailed
deriving DecidableEq, Repr

/-- The loop of `send_flight`, with the packets handed to the BIO so far. -/
def sendLoop (env : FlightEnv) : Nat → DtlsFlightState κ → List (List SealedRecord) →
    SendFlight × List (List SealedRecord) × DtlsFlightState κ
  | 0, ssl, handed => (.error, handed, ssl)
  | fuel + 1, ssl, handed =>
    if ssl.outgoingWritten < ssl.outgoingMessages.length then
      match sealNextPacket ssl ssl.mtu with
      | (none, ssl) => (.error, handed, ssl)
      | (some packet, sealed) =>
        if env.bioWrite handed.length (packetBytes packet) ≤ 0 then
          -- Retry this packet the next time around.
          (.bioWriteFailed, handed ++ [packet],
            { sealed with
              outgoingWritten := ssl.outgoingWritten
              outgoingOffset := ssl.outgoingOffset })
        else sendLoop env fuel sealed (handed ++ [packet])
    else if env.bioFlush ≤ 0 then (.bioFlushFailed, handed, ssl)
    else (.success, handed, ssl)

structure Cursor where
  queue : List DtlsOutgoingMessage
  offset : Nat

def DtlsFlightState.cursor : Cursor :=
  { queue := ssl.outgoingMessages.drop ssl.outgoingWritten, offset := ssl.outgoingOffset }

def Cursor.size (cursor : Cursor) : Nat :=
  (cursor.queue.map fun msg => msg.data.length + 1).sum - cursor.offset

/-- `send_flight`: how it returns, the packets handed to the BIO, and the state. -/
def sendFlight (env : FlightEnv) (ssl : DtlsFlightState κ) :
    SendFlight × List (List SealedRecord) × DtlsFlightState κ :=
  if ssl.writeShutdown ≠ .none then (.error, [], ssl)
  else if !ssl.hasWbio then (.error, [], ssl)
  else
    let ssl := dtls1UpdateMtu env.queryMtu ssl
    if !env.allocOk then (.error, [], ssl)
    else sendLoop env (ssl.cursor.size + 1) ssl []

/-- `data` is the single fragment of a whole message. -/
structure HmMessage.Serialized (m : HmMessage) (data : Bytes) : Prop where
  data_eq : data = m.raw
  length_lt : m.body.length < 2 ^ 24

def Cursor.Valid (cursor : Cursor) : Prop :=
  cursor.offset = 0 ∨ ∃ (msg : DtlsOutgoingMessage) (rest : List DtlsOutgoingMessage)
    (m : HmMessage), cursor.queue = msg :: rest ∧ msg.isCcs = false ∧
      m.Serialized msg.data ∧ cursor.offset < m.body.length

/-- **The next record**: a ChangeCipherSpec, or the fragment that starts at the offset, up to the
    end of the message or a nonempty part of what is left. -/
inductive EmitStep : Cursor → SealedRecord → Cursor → Prop where
  | changeCipherSpec {msg queue record} (hccs : msg.isCcs = true)
      (htype : record.type = SSL3_RT_CHANGE_CIPHER_SPEC)
      (hplain : record.plaintext = [SSL3_MT_CCS]) :
      EmitStep ⟨msg :: queue, 0⟩ record ⟨queue, 0⟩
  | lastFragment {msg queue record offset} {m : HmMessage} (hmsg : msg.isCcs = false)
      (hdata : m.Serialized msg.data) (hoffset : offset = 0 ∨ offset < m.body.length)
      (htype : record.type = SSL3_RT_HANDSHAKE)
      (hplain : record.plaintext = m.fragment offset (m.body.length - offset)) :
      EmitStep ⟨msg :: queue, offset⟩ record ⟨queue, 0⟩
  | fragment {msg queue record offset} {m : HmMessage} {len : Nat} (hmsg : msg.isCcs = false)
      (hdata : m.Serialized msg.data) (hlen : 0 < len) (hinside : offset + len < m.body.length)
      (htype : record.type = SSL3_RT_HANDSHAKE)
      (hplain : record.plaintext = m.fragment offset len) :
      EmitStep ⟨msg :: queue, offset⟩ record ⟨msg :: queue, offset + len⟩

variable {cursor cursor' : Cursor} {record : SealedRecord}

theorem EmitStep.valid (h : EmitStep cursor record cursor') : cursor'.Valid := by
  cases h with
  | changeCipherSpec => exact Or.inl rfl
  | lastFragment => exact Or.inl rfl
  | fragment hmsg hdata hlen hinside htype hplain =>
    exact Or.inr ⟨_, _, _, rfl, hmsg, hdata, hinside⟩

def Emits : Cursor → List SealedRecord → Cursor → Prop
  | cursor, [], cursor' => cursor = cursor'
  | cursor, record :: records, cursor' =>
    ∃ next, EmitStep cursor record next ∧ Emits next records cursor'

variable {records : List SealedRecord}

theorem Emits.append {middle : Cursor} {later : List SealedRecord} (h : Emits cursor records middle)
    (hlater : Emits middle later cursor') : Emits cursor (records ++ later) cursor' := by
  induction records generalizing cursor with
  | nil =>
    cases h
    exact hlater
  | cons record records ih =>
    obtain ⟨next, hstep, hrest⟩ := h
    exact ⟨next, hstep, ih hrest⟩

theorem Emits.concat {middle : Cursor} (h : Emits cursor records middle)
    (hstep : EmitStep middle record cursor') : Emits cursor (records ++ [record]) cursor' :=
  h.append ⟨cursor', hstep, rfl⟩

theorem Emits.valid (h : Emits cursor records cursor') (hvalid : cursor.Valid) : cursor'.Valid := by
  induction records generalizing cursor with
  | nil =>
    cases h
    exact hvalid
  | cons record records ih =>
    obtain ⟨next, hstep, hrest⟩ := h
    exact ih hrest hstep.valid

variable {offset : Nat}

theorem dtls1ParseOutgoing_eq_some {data unsent body : Bytes} {hdr : HmHeader}
    (h : dtls1ParseOutgoing data offset = some (hdr, body, unsent)) :
    ∃ m : HmMessage, m.Serialized data ∧ hdr = m.header 0 m.body.length ∧
      offset ≤ m.body.length ∧ unsent = m.body.drop offset := by
  simp only [dtls1ParseOutgoing, bind_eq_bind, bind_eq_some_iff, Option.pure_def,
    Prod.exists] at h
  obtain ⟨hdr', body', cbs, hparse, h⟩ := h
  obtain ⟨hfits, hlength, rfl⟩ := dtls1ParseFragment_iff.mp hparse
  split at h
  · cases h
  rename_i hwhole
  push Not at hwhole
  obtain ⟨hoff, hfragLen, hmsgLen⟩ := hwhole
  obtain ⟨skipped, hskip, h⟩ := bind_eq_some_iff.mp h
  split at h
  · cases h
  rename_i hrest
  rw [not_not] at hrest
  simp only [Option.some.injEq, Prod.mk.injEq] at h
  obtain ⟨rfl, rfl, rfl⟩ := h
  obtain ⟨⟨taken, rest⟩, hget, hskipped⟩ := map_eq_some_iff.mp hskip
  obtain ⟨hsplit, htaken⟩ := cbsGet_eq_some hget
  cases hskipped
  refine ⟨{ type := hdr'.type, seq := hdr'.seq, body := body' }, ⟨?_, ?_⟩, ?_, ?_, ?_⟩
  · rw [hrest, append_nil, HmMessage.raw, hmMessageHeader]
    congr 2
    cases hdr'
    simp_all
  · rw [← hmsgLen]
    exact hfits.msgLen_lt
  · cases hdr'
    simp_all [HmMessage.header]
  · dsimp only
    rw [hsplit, length_append]
    omega
  · dsimp only
    rw [hsplit, drop_left' htaken]

theorem assembleFragment_eq_some {hdr : HmHeader} {maxFrag : Nat} {contents frag : Bytes}
    (h : assembleFragment hdr offset contents maxFrag = some frag) :
    frag = HmHeader.encode { hdr with fragOff := offset, fragLen := contents.length } ++
      contents := by
  simp only [assembleFragment, bind_eq_bind, bind_eq_some_iff, Option.pure_def,
    cbbAddU24LengthPrefixed] at h
  obtain ⟨msgLen, hmsgLen, fragOff, hfragOff, child, ⟨fragLen, hfragLen, hchild⟩, h⟩ := h
  obtain ⟨-, rfl⟩ := cbbAddU_eq_some hmsgLen
  obtain ⟨-, rfl⟩ := cbbAddU_eq_some hfragOff
  obtain ⟨-, rfl⟩ := cbbAddU_eq_some hfragLen
  cases hchild
  split at h
  · cases h
  · cases h
    simp [HmHeader.encode]

structure SameQueue (ssl ssl' : DtlsFlightState κ) : Prop where
  messages : ssl'.outgoingMessages = ssl.outgoingMessages
  written : ssl'.outgoingWritten = ssl.outgoingWritten
  mtu : ssl'.mtu = ssl.mtu

/-- What `seal_next_message` may return at a cursor with `maxOut` bytes of room. -/
def SealResult.Allowed (ssl ssl' : DtlsFlightState κ) (maxOut : Nat) : SealResult → Prop
  | .error => True
  | .noProgress => ssl' = ssl
  | .partialMessage record =>
    record.bytes.length ≤ maxOut ∧ EmitStep ssl.cursor record ssl'.cursor
  | .success record =>
    record.bytes.length ≤ maxOut ∧ EmitStep ssl.cursor record
      { queue := ssl.outgoingMessages.drop (ssl.outgoingWritten + 1)
        offset := ssl'.outgoingOffset }

variable {ssl ssl' : DtlsFlightState κ}

theorem DtlsFlightState.sealRecord_eq_some {maxOut : Nat} {type : UInt8} {input : Bytes}
    {useEpoch : Dtls1UseEpoch} (h : ssl.sealRecord maxOut type input useEpoch = (some record, ssl'))
    : record.type = type ∧ record.plaintext = input ∧ record.bytes.length ≤ maxOut ∧
      SameQueue ssl ssl' ∧ ssl'.outgoingOffset = ssl.outgoingOffset := by
  simp only [sealRecord, Prod.mk.injEq] at h
  obtain ⟨hrecord, rfl⟩ := h
  obtain ⟨bytes, hbytes, rfl⟩ := map_eq_some_iff.mp hrecord
  exact ⟨rfl, rfl, dtlsSealRecord_length (Prod.ext hbytes rfl), ⟨rfl, rfl, rfl⟩, rfl⟩

variable {msg : DtlsOutgoingMessage}

theorem DtlsFlightState.cursor_queue
    (hmsg : ssl.outgoingMessages[ssl.outgoingWritten]? = some msg) :
    ssl.cursor = { queue := msg :: ssl.outgoingMessages.drop (ssl.outgoingWritten + 1)
                   offset := ssl.outgoingOffset } := by
  obtain ⟨hlt, rfl⟩ := List.getElem?_eq_some_iff.mp hmsg
  rw [cursor, drop_eq_getElem_cons hlt]

theorem HmMessage.Serialized.unique {m m' : HmMessage} {data : Bytes} (h : m.Serialized data)
    (h' : m'.Serialized data) : m = m' := by
  have hparse : ∀ m : HmMessage, m.Serialized data →
      dtls1ParseFragment data = some (m.header 0 m.body.length, m.body, []) := by
    intro m hm
    have hlt := hm.length_lt
    refine dtls1ParseFragment_iff.mpr ⟨⟨hlt, Nat.two_pow_pos 24, hlt⟩, rfl, ?_⟩
    rw [hm.data_eq, append_nil]
    rfl
  have heq := (hparse m h).symm.trans (hparse m' h')
  simp only [HmMessage.header, Option.some.injEq, Prod.mk.injEq, HmHeader.mk.injEq] at heq
  cases m
  cases m'
  simp_all

theorem Cursor.Valid.offset_of_serialized (hvalid : cursor.Valid)
    {queue : List DtlsOutgoingMessage} {m : HmMessage}
    (hcursor : cursor = { queue := msg :: queue, offset }) (hdata : m.Serialized msg.data) :
    offset = 0 ∨ offset < m.body.length := by
  subst hcursor
  rcases hvalid with hzero | ⟨first, rest, m', hfirst, -, hdata', hinside⟩
  · exact Or.inl hzero
  · obtain ⟨rfl, -⟩ := List.cons.inj hfirst
    rw [hdata.unique hdata']
    exact Or.inr hinside

theorem HmMessage.fragment_take (m : HmMessage) (len : Nat) :
    m.fragment offset (min len (m.body.length - offset)) = HmHeader.encode
      { m.header 0 m.body.length with
        fragOff := offset, fragLen := ((m.body.drop offset).take len).length } ++
      (m.body.drop offset).take len := by
  unfold HmMessage.fragment
  rw [← length_drop, ← take_eq_take_min, length_take]
  rfl

theorem sealNextMessage_emits (hvalid : ssl.cursor.Valid)
    (hmsg : ssl.outgoingMessages[ssl.outgoingWritten]? = some msg) (maxOut : Nat) :
    SameQueue ssl (sealNextMessage ssl maxOut msg).2 ∧
      (sealNextMessage ssl maxOut msg).1.Allowed ssl (sealNextMessage ssl maxOut msg).2 maxOut := by
  have hcursor := cursor_queue hmsg
  have hsame : SameQueue ssl ssl := ⟨rfl, rfl, rfl⟩
  unfold sealNextMessage
  cases dtls1MessageEpoch ssl msg with
  | none => exact ⟨hsame, trivial⟩
  | some useEpoch =>
    dsimp only
    by_cases hccs : msg.isCcs = true
    · rw [if_pos hccs]
      split
      · exact ⟨hsame, rfl⟩
      split
      · rename_i hseal
        have hstate := congrArg Prod.snd hseal
        subst hstate
        exact ⟨⟨rfl, rfl, rfl⟩, trivial⟩
      · rename_i record ssl' hseal
        obtain ⟨htype, hplain, hlength, hqueue, hoffset⟩ :=
          sealRecord_eq_some hseal
        -- a ChangeCipherSpec has no inside
        have hzero : ssl.outgoingOffset = 0 := by
          rcases hvalid with hzero | ⟨first, rest, m, hfirst, hnot, -⟩
          · exact hzero
          · rw [hcursor] at hfirst
            obtain ⟨rfl, -⟩ := List.cons.inj hfirst
            rw [hccs] at hnot
            cases hnot
        refine ⟨hqueue, hlength, ?_⟩
        rw [hcursor, hoffset, hzero]
        exact EmitStep.changeCipherSpec hccs htype hplain
    · rw [if_neg hccs]
      rw [Bool.not_eq_true] at hccs
      split
      · exact ⟨hsame, trivial⟩
      rename_i hdr body unsent hparse
      obtain ⟨m, hdata, rfl, hoffset, rfl⟩ := dtls1ParseOutgoing_eq_some hparse
      split
      · exact ⟨hsame, rfl⟩
      rename_i hroom
      -- there is room for at least one byte
      obtain ⟨todo, htodo⟩ : ∃ todo, todo = min (m.body.drop ssl.outgoingOffset).length
        (maxOut - DTLS1_HM_HEADER_LENGTH - dtlsMaxSealOverhead ssl.toDtlsWriteState useEpoch) :=
        ⟨_, rfl⟩
      have hprogress : todo = (m.body.drop ssl.outgoingOffset).length ∨
          0 < todo ∧ todo < (m.body.drop ssl.outgoingOffset).length := by omega
      rw [← htodo]
      split
      · exact ⟨hsame, trivial⟩
      rename_i frag hassemble
      have hfrag := assembleFragment_eq_some hassemble
      split
      · rename_i hseal
        have hstate := congrArg Prod.snd hseal
        subst hstate
        exact ⟨⟨rfl, rfl, rfl⟩, trivial⟩
      · rename_i record ssl' hseal
        obtain ⟨htype, hplain, hlength, hqueue, hoffset'⟩ :=
          sealRecord_eq_some hseal
        have hcontents : record.plaintext =
            m.fragment ssl.outgoingOffset (min todo (m.body.length - ssl.outgoingOffset)) :=
          hplain.trans (hfrag.trans (m.fragment_take todo).symm)
        rw [length_drop] at hprogress
        have hqueue' : ∀ offset, SameQueue ssl { ssl' with outgoingOffset := offset } :=
          fun _ => ⟨hqueue.messages, hqueue.written, hqueue.mtu⟩
        split
        · rename_i hall
          rw [length_drop] at hall
          rw [hall, Nat.min_self] at hcontents
          refine ⟨hqueue' 0, hlength, ?_⟩
          rw [hcursor]
          exact EmitStep.lastFragment hccs hdata (hvalid.offset_of_serialized hcursor hdata) htype
            hcontents
        · rename_i hpart
          rw [length_drop] at hpart
          rw [Nat.min_eq_left (by omega)] at hcontents
          refine ⟨hqueue' _, hlength, ?_⟩
          have hafter : cursor
              { ssl' with outgoingOffset := ssl'.outgoingOffset + todo } =
              { queue := msg :: ssl.outgoingMessages.drop (ssl.outgoingWritten + 1)
                offset := ssl.outgoingOffset + todo } := by
            have hqueueEq : ssl.outgoingMessages.drop ssl.outgoingWritten =
                msg :: ssl.outgoingMessages.drop (ssl.outgoingWritten + 1) :=
              congrArg Cursor.queue hcursor
            simp [cursor, hqueue.messages, hqueue.written, hoffset', hqueueEq]
          rw [hafter, hcursor]
          exact EmitStep.fragment hccs hdata (by omega) (by omega) htype hcontents

/-- A packet: records that together fit the room there was, from the cursor found
    to the cursor left, and the queue and the MTU unchanged. -/
structure PacketEmits (ssl ssl' : DtlsFlightState κ) (room : Nat)
    (packet : List SealedRecord) : Prop where
  messages : ssl'.outgoingMessages = ssl.outgoingMessages
  mtu : ssl'.mtu = ssl.mtu
  length_le : (packetBytes packet).length ≤ room
  emits : Emits ssl.cursor packet ssl'.cursor

theorem length_packetBytes_append (record : SealedRecord) :
    (packetBytes (packet ++ [record])).length =
      (packetBytes packet).length + record.bytes.length := by
  simp [packetBytes]

/-- The loop invariant of `seal_next_packet`: what has been sealed so far is a
    packet, and `maxOut` is the room left in it. -/
theorem sealPacketLoop_emits {start : DtlsFlightState κ} {room : Nat} (hstart : start.cursor.Valid)
    (fuel : Nat) {maxOut : Nat} {packet result : List SealedRecord}
    (hpacket : PacketEmits start ssl room packet)
    (hroom : (packetBytes packet).length + maxOut = room)
    (hloop : sealPacketLoop fuel ssl maxOut packet = (some result, ssl')) :
    PacketEmits start ssl' room result ∧ result ≠ [] := by
  have hfull : ∀ {packet result : List SealedRecord} {s : DtlsFlightState κ},
      PacketEmits start s room packet → (packetFull packet, s) = (some result, ssl') →
      PacketEmits start ssl' room result ∧ result ≠ [] := by
    intro packet result s h heq
    simp only [packetFull, Prod.mk.injEq] at heq
    obtain ⟨heq, rfl⟩ := heq
    split at heq
    · cases heq
    · rename_i hne
      cases heq
      exact ⟨h, hne⟩
  induction fuel generalizing ssl maxOut packet with
  | zero => exact hfull hpacket hloop
  | succ fuel ih =>
    unfold sealPacketLoop at hloop
    cases hmsg : ssl.outgoingMessages[ssl.outgoingWritten]? with
    | none =>
      rw [hmsg] at hloop
      exact hfull hpacket hloop
    | some msg =>
      rw [hmsg] at hloop
      obtain ⟨hqueue, hallowed⟩ :=
        sealNextMessage_emits (hpacket.emits.valid hstart) hmsg maxOut
      dsimp only at hloop
      split at hloop
      · cases hloop
      · rename_i sealed hseal
        rw [hseal] at hallowed
        have hunchanged : sealed = ssl := hallowed
        exact hfull (hunchanged ▸ hpacket) hloop
      · rename_i record sealed hseal
        rw [hseal] at hqueue hallowed
        obtain ⟨hlength, hstep⟩ : record.bytes.length ≤ maxOut ∧ _ := hallowed
        refine hfull ⟨hqueue.messages.trans hpacket.messages, hqueue.mtu.trans hpacket.mtu, ?_,
          hpacket.emits.concat hstep⟩ hloop
        rw [length_packetBytes_append]
        omega
      · rename_i record sealed hseal
        rw [hseal] at hqueue hallowed
        obtain ⟨hlength, hstep⟩ : record.bytes.length ≤ maxOut ∧ _ := hallowed
        replace hqueue : SameQueue ssl sealed := hqueue
        have hcursor : cursor
            { sealed with outgoingWritten := sealed.outgoingWritten + 1 } =
            { queue := ssl.outgoingMessages.drop (ssl.outgoingWritten + 1)
              offset := sealed.outgoingOffset } := by
          simp [cursor, hqueue.messages, hqueue.written]
        rw [← hcursor] at hstep
        have hnext : PacketEmits start
            { sealed with outgoingWritten := sealed.outgoingWritten + 1 } room
            (packet ++ [record]) := by
          refine ⟨hqueue.messages.trans hpacket.messages, hqueue.mtu.trans hpacket.mtu, ?_,
            hpacket.emits.concat hstep⟩
          rw [length_packetBytes_append]
          omega
        refine ih hnext ?_ hloop
        rw [length_packetBytes_append]
        omega

theorem sealNextPacket_emits (hvalid : ssl.cursor.Valid) {maxOut : Nat} {packet : List SealedRecord}
    (hpacket : sealNextPacket ssl maxOut = (some packet, ssl')) :
    PacketEmits ssl ssl' maxOut packet ∧ packet ≠ [] := by
  have hempty : PacketEmits ssl ssl maxOut [] := ⟨rfl, rfl, Nat.zero_le _, rfl⟩
  exact sealPacketLoop_emits hvalid _ hempty (Nat.zero_add maxOut) hpacket

/-! ### A call of `send_flight` -/

/-- Every packet handed to the BIO fits the MTU; those accepted lead from the cursor found to the
    end of the queue, or to the cursor left where `BIO_write` failed. -/
structure SendEmits (start ssl' : DtlsFlightState κ) (ret : SendFlight)
    (handed : List (List SealedRecord)) : Prop where
  length_le : ∀ packet ∈ handed, (packetBytes packet).length ≤ start.mtu
  success : ret = .success → ssl'.outgoingMessages = start.outgoingMessages ∧
    ssl'.cursor.queue = [] ∧ Emits start.cursor handed.flatten ssl'.cursor
  failed : ret = .bioWriteFailed → ssl'.outgoingMessages = start.outgoingMessages ∧
    ∃ accepted refused, handed = accepted ++ [refused] ∧
      Emits start.cursor accepted.flatten ssl'.cursor

theorem sendLoop_emits {env : FlightEnv} {start : DtlsFlightState κ} (hstart : start.cursor.Valid)
    (fuel : Nat) {ret : SendFlight} {handed handed' : List (List SealedRecord)}
    (hmessages : ssl.outgoingMessages = start.outgoingMessages) (hmtu : ssl.mtu = start.mtu)
    (hlength : ∀ packet ∈ handed, (packetBytes packet).length ≤ start.mtu)
    (hemits : Emits start.cursor handed.flatten ssl.cursor)
    (hloop : sendLoop env fuel ssl handed = (ret, handed', ssl')) :
    SendEmits start ssl' ret handed' := by
  induction fuel generalizing ssl handed with
  | zero =>
    cases hloop
    exact ⟨hlength, nofun, nofun⟩
  | succ fuel ih =>
    unfold sendLoop at hloop
    split at hloop
    · cases hpacket : sealNextPacket ssl ssl.mtu with
      | mk result sealed =>
        rw [hpacket] at hloop
        cases result with
        | none =>
          cases hloop
          exact ⟨hlength, nofun, nofun⟩
        | some packet =>
          obtain ⟨hsealed, -⟩ := sealNextPacket_emits (hemits.valid hstart) hpacket
          have hlength' : ∀ p ∈ handed ++ [packet], (packetBytes p).length ≤ start.mtu := by
            intro p hp
            rcases mem_append.mp hp with hold | hnew
            · exact hlength p hold
            · rw [mem_singleton.mp hnew, ← hmtu]
              exact hsealed.length_le
          dsimp only at hloop
          split at hloop
          · -- the cursor is put back in front of the refused packet
            cases hloop
            refine ⟨hlength', nofun, fun _ =>
              ⟨hsealed.messages.trans hmessages, handed, packet, rfl, ?_⟩⟩
            have hcursor : cursor
                { sealed with outgoingWritten := ssl.outgoingWritten
                              outgoingOffset := ssl.outgoingOffset } = ssl.cursor := by
              simp [cursor, hsealed.messages]
            rw [hcursor]
            exact hemits
          · refine ih (hsealed.messages.trans hmessages) (hsealed.mtu.trans hmtu) hlength' ?_ hloop
            rw [flatten_append, flatten_singleton]
            exact hemits.append hsealed.emits
    · rename_i hdone
      split at hloop
      · cases hloop
        exact ⟨hlength, nofun, nofun⟩
      · cases hloop
        refine ⟨hlength, fun _ => ⟨hmessages, ?_, hemits⟩, nofun⟩
        exact drop_eq_nil_of_le (Nat.not_lt.mp hdone)

/-- **One call of `send_flight`.**  The MTU is the one in force after `dtls1_update_mtu`. -/
theorem sendFlight_emits {env : FlightEnv} {ret : SendFlight} {handed : List (List SealedRecord)}
    (hvalid : ssl.cursor.Valid) (hsend : sendFlight env ssl = (ret, handed, ssl')) :
    SendEmits (dtls1UpdateMtu env.queryMtu ssl) ssl' ret handed ∧
      (dtls1UpdateMtu env.queryMtu ssl).cursor = ssl.cursor ∧
      (dtls1UpdateMtu env.queryMtu ssl).outgoingMessages = ssl.outgoingMessages := by
  have hmtu : (dtls1UpdateMtu env.queryMtu ssl).cursor = ssl.cursor ∧
      (dtls1UpdateMtu env.queryMtu ssl).outgoingMessages = ssl.outgoingMessages := by
    unfold dtls1UpdateMtu
    split <;> exact ⟨rfl, rfl⟩
  refine ⟨?_, hmtu⟩
  have hnothing : ∀ s : DtlsFlightState κ,
      SendEmits (dtls1UpdateMtu env.queryMtu ssl) s .error [] :=
    fun _ => ⟨by simp, nofun, nofun⟩
  unfold sendFlight at hsend
  split at hsend
  · cases hsend
    exact hnothing _
  split at hsend
  · cases hsend
    exact hnothing _
  dsimp only at hsend
  split at hsend
  · cases hsend
    exact hnothing _
  · have hnone : Emits (dtls1UpdateMtu env.queryMtu ssl).cursor (List.flatten [])
        (dtls1UpdateMtu env.queryMtu ssl).cursor := rfl
    exact sendLoop_emits (by rw [hmtu.1]; exact hvalid) _ rfl rfl (by simp) hnone hsend

/-! ### The loop of `send_flight` ends -/

theorem EmitStep.size_lt (h : EmitStep cursor record cursor') : cursor'.size < cursor.size := by
  have hlength : ∀ {m : HmMessage} {data : Bytes}, m.Serialized data →
      m.body.length ≤ data.length := by
    intro m data hdata
    rw [hdata.data_eq, HmMessage.raw, length_append]
    exact Nat.le_add_left _ _
  cases h with
  | changeCipherSpec hccs htype hplain =>
    simp only [Cursor.size, map_cons, sum_cons]
    omega
  | lastFragment hmsg hdata hoffset htype hplain =>
    have := hlength hdata
    simp only [Cursor.size, map_cons, sum_cons]
    omega
  | fragment hmsg hdata hlen hinside htype hplain =>
    have := hlength hdata
    simp only [Cursor.size, map_cons, sum_cons]
    omega

theorem Emits.size_le (h : Emits cursor records cursor') :
    cursor'.size + records.length ≤ cursor.size := by
  induction records generalizing cursor with
  | nil =>
    cases h
    exact Nat.le_refl _
  | cons record records ih =>
    obtain ⟨next, hstep, hrest⟩ := h
    have := ih hrest
    have := hstep.size_lt
    rw [length_cons]
    omega

/-- The fuel of `sendFlight` is enough: any larger amount gives the same result. -/
theorem sendLoop_fuel (env : FlightEnv) {fuel fuel' : Nat} (hvalid : ssl.cursor.Valid)
    (handed : List (List SealedRecord)) (hfuel : ssl.cursor.size < fuel)
    (hfuel' : ssl.cursor.size < fuel') :
    sendLoop env fuel ssl handed = sendLoop env fuel' ssl handed := by
  induction fuel generalizing fuel' ssl handed with
  | zero => exact absurd hfuel (Nat.not_lt_zero _)
  | succ fuel ih =>
    obtain ⟨fuel', rfl⟩ : ∃ n, fuel' = n + 1 := ⟨fuel' - 1, by omega⟩
    unfold sendLoop
    split
    · cases hpacket : sealNextPacket ssl ssl.mtu with
      | mk result sealed =>
        cases result with
        | none => rfl
        | some packet =>
          obtain ⟨hsealed, hne⟩ := sealNextPacket_emits hvalid hpacket
          have hsize := hsealed.emits.size_le
          have hpos := length_pos_iff.mpr hne
          dsimp only
          split
          · rfl
          · exact ih (hsealed.emits.valid hvalid) _ (by omega) (by omega)
    · rfl

end AwsLc
