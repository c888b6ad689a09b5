import AwsLc.DtlsFlight
import AwsLc.DtlsHandshakeRuns

/-!
# A flight from the queue to the peer

`send_flight` may be called several times for one flight, with other keys or another MTU in between.
The packets that the BIO accepts over all the calls are a partition of the queue (`FlightPieces`),
and a receiver that takes each message when it is complete gets exactly the queued ones.
-/

namespace AwsLc

open AwsLc.Memory List Function SealedRecord

variable {κ : Type}

/-! ### The partition -/

/-- The fragments of `m` from `offset` on, of the lengths `cuts`. -/
def fragmentsOf (m : HmMessage) : Nat → List Nat → List (UInt8 × Bytes)
  | _, [] => []
  | offset, len :: cuts =>
    (SSL3_RT_HANDSHAKE, m.fragment offset len) :: fragmentsOf m (offset + len) cuts

/-- The records of one queued message from `offset` on: a ChangeCipherSpec, or consecutive fragments
    that end where the message ends, none of them empty unless the message is. -/
def MessagePieces (offset : Nat) (msg : DtlsOutgoingMessage) (records : List (UInt8 × Bytes)) :
    Prop :=
  if msg.isCcs then records = [(SSL3_RT_CHANGE_CIPHER_SPEC, [SSL3_MT_CCS])]
  else ∃ (m : HmMessage) (cuts : List Nat), m.Serialized msg.data ∧
    records = fragmentsOf m offset cuts ∧ offset + cuts.sum = m.body.length ∧ cuts ≠ [] ∧
    ((∀ len ∈ cuts, 0 < len) ∨ cuts = [0])

def FlightPieces : Nat → List DtlsOutgoingMessage → List (UInt8 × Bytes) → Prop
  | _, [], records => records = []
  | offset, msg :: queue, records => ∃ pieces rest, MessagePieces offset msg pieces ∧
    FlightPieces 0 queue rest ∧ records = pieces ++ rest

def SealedRecord.content (record : SealedRecord) : UInt8 × Bytes :=
  (record.type, record.plaintext)

variable {cursor cursor' : Cursor}

/-- **Emitting everything is a partition.** -/
theorem Emits.flightPieces {records : List SealedRecord} (h : Emits cursor records cursor')
    (hend : cursor'.queue = []) :
    FlightPieces cursor.offset cursor.queue (records.map content) := by
  induction records generalizing cursor with
  | nil =>
    cases h
    rw [hend]
    rfl
  | cons record records ih =>
    obtain ⟨next, hstep, hrest⟩ := h
    have hpieces := ih hrest
    cases hstep with
    | changeCipherSpec hccs htype hplain =>
      refine ⟨[record.content], _, ?_, hpieces, rfl⟩
      rw [MessagePieces, if_pos hccs, content, htype, hplain]
    | @lastFragment msg queue _ offset m hmsg hdata hoffset htype hplain =>
      refine ⟨[record.content], _, ?_, hpieces, rfl⟩
      rw [MessagePieces, if_neg (by rw [hmsg]; decide)]
      refine ⟨m, [m.body.length - offset], hdata, ?_, ?_, by simp, ?_⟩
      · rw [fragmentsOf, fragmentsOf, content, htype, hplain]
      · rw [sum_singleton]
        dsimp only
        omega
      · rcases hoffset with rfl | hlt
        · rcases Nat.eq_zero_or_pos m.body.length with hempty | hpos
          · exact Or.inr (by rw [hempty])
          · exact Or.inl (by simpa using hpos)
        · exact Or.inl (by simpa using hlt)
    | @fragment msg queue _ offset m len hmsg hdata hlen hinside htype hplain =>
      -- the rest of the message continues where this fragment ends
      obtain ⟨pieces, rest, hmessage, hqueue, hsplit⟩ := hpieces
      rw [MessagePieces, if_neg (by rw [hmsg]; decide)] at hmessage
      obtain ⟨m', cuts, hdata', rfl, hsum, hne, hpos⟩ := hmessage
      obtain rfl := hdata.unique hdata'
      refine ⟨record.content :: fragmentsOf m (offset + len) cuts, rest, ?_, hqueue, ?_⟩
      · rw [MessagePieces, if_neg (by rw [hmsg]; decide)]
        refine ⟨m, len :: cuts, hdata, ?_, ?_, by simp, Or.inl ?_⟩
        · rw [fragmentsOf, content, htype, hplain]
        · rw [sum_cons]
          dsimp only at hsum ⊢
          omega
        · rcases hpos with hpos | rfl
          · exact forall_mem_cons.mpr ⟨hlen, hpos⟩
          · simp only [sum_singleton] at hsum
            omega
      · rw [map_cons, hsplit, cons_append]

/-! ### The receiver -/

/-- The receiver opens a record in the read state `read` and takes the current
    message if it is complete. -/
def receiveRecord (env : HandshakeEnv) (ssl : DtlsHandshakeState κ) (read : DtlsReadState κ)
    (bytes : Bytes) : Option (List SslMessage × DtlsHandshakeState κ) :=
  match dtls1OpenHandshake env { ssl with toDtlsReadState := read } bytes with
  | (.success, _, ssl) =>
    match dtls1GetMessage ssl with
    | none => some ([], ssl)
    | some (msg, ssl) => (dtls1NextMessage ssl).map fun ssl => ([msg], ssl)
  | _ => none

def receiveRecords (env : HandshakeEnv) :
    DtlsHandshakeState κ → List (DtlsReadState κ × Bytes) →
    Option (List SslMessage × DtlsHandshakeState κ)
  | ssl, [] => some ([], ssl)
  | ssl, (read, bytes) :: records => do
    let (messages, ssl) ← receiveRecord env ssl read bytes
    let (later, ssl) ← receiveRecords env ssl records
    return (messages ++ later, ssl)

def Numbered : UInt16 → List DtlsOutgoingMessage → Prop
  | _, [] => True
  | seq, msg :: queue =>
    if msg.isCcs then Numbered seq queue
    else (∀ m : HmMessage, m.Serialized msg.data → m.seq = seq) ∧ Numbered (seq + 1) queue

def numberAfter (seq : UInt16) (queue : List DtlsOutgoingMessage) : UInt16 :=
  queue.foldl (fun seq msg => if msg.isCcs then seq else seq + 1) seq

theorem Numbered.append {seq : UInt16} {queue : List DtlsOutgoingMessage}
    {msg : DtlsOutgoingMessage} (h : Numbered seq queue)
    (hmsg : Numbered (numberAfter seq queue) [msg]) : Numbered seq (queue ++ [msg]) := by
  induction queue generalizing seq with
  | nil => exact hmsg
  | cons first queue ih =>
    cases hccs : first.isCcs with
    | true =>
      simp only [Numbered, numberAfter, foldl_cons, cons_append, hccs, if_true] at h hmsg ⊢
      exact ih h hmsg
    | false =>
      simp only [Numbered, numberAfter, foldl_cons, cons_append, hccs] at h hmsg ⊢
      exact ⟨h.1, ih h.2 hmsg⟩

/-- What `dtls1_finish_message` returns is the whole message as one fragment. -/
theorem dtls1FinishMessage_serialized {writeSeq : UInt16} {type : UInt8} {body data : Bytes}
    (h : dtls1FinishMessage writeSeq type body = some data) :
    HmMessage.Serialized { type, seq := writeSeq, body } data := by
  simp only [dtls1FinishMessage, Option.bind_eq_bind, Option.bind_eq_some_iff,
    cbbAddU24LengthPrefixed] at h
  obtain ⟨child, ⟨fragLen, hfragLen, hchild⟩, h⟩ := h
  obtain ⟨hlt, rfl⟩ := cbbAddU_eq_some hfragLen
  cases hchild
  split at h
  · cases h
  cases h
  refine ⟨?_, hlt⟩
  simp [memcpyAt, HmMessage.raw, hmMessageHeader, HmHeader.encode, cbbAddU8, cbbAddU16,
    BigEndian.beBytes, DTLS1_HM_HEADER_LENGTH]

/-- The queue holds whole messages, and their numbers end below `handshake_write_seq`. -/
def DtlsFlightState.QueueNumbered (ssl : DtlsFlightState κ) : Prop :=
  (∀ msg ∈ ssl.outgoingMessages, msg.isCcs = false → ∃ m : HmMessage, m.Serialized msg.data) ∧
    ∃ seq, Numbered seq ssl.outgoingMessages ∧
      numberAfter seq ssl.outgoingMessages = ssl.handshakeWriteSeq

/-- **Queueing keeps the numbers**: `add_outgoing` with a message finished under
    `handshake_write_seq`, or with a ChangeCipherSpec. -/
theorem addOutgoing_numbered {ssl ssl' : DtlsFlightState κ} {transcriptOk isCcs : Bool}
    {data : Bytes} (hqueue : ssl.QueueNumbered) (hdata : isCcs = false → ∃ type body,
      dtls1FinishMessage ssl.handshakeWriteSeq type body = some data)
    (hadd : addOutgoing transcriptOk ssl isCcs data = some ssl') : ssl'.QueueNumbered := by
  -- a flight that was complete is dropped first; the empty queue is numbered
  have hstart : (startOutgoing ssl).handshakeWriteSeq = ssl.handshakeWriteSeq ∧
      (startOutgoing ssl).QueueNumbered := by
    unfold startOutgoing
    split
    · exact ⟨rfl, forall_mem_nil _, ssl.handshakeWriteSeq, trivial, rfl⟩
    · exact ⟨rfl, hqueue⟩
  obtain ⟨hwriteSeq, hwhole, seq, hnumbers, hafter⟩ := hstart
  unfold addOutgoing pushOutgoing at hadd
  split at hadd
  · cases hadd
  split at hadd
  · cases hadd
  cases hadd
  refine ⟨forall_mem_append.mpr ⟨hwhole, forall_mem_singleton.mpr fun hmessage => ?_⟩,
    seq, hnumbers.append ?_, ?_⟩
  · obtain ⟨type, body, hfinish⟩ := hdata hmessage
    exact ⟨_, dtls1FinishMessage_serialized hfinish⟩
  · rw [hafter, Numbered]
    cases isCcs with
    | true => trivial
    | false =>
      obtain ⟨type, body, hfinish⟩ := hdata rfl
      rw [hwriteSeq]
      refine ⟨fun m hm => ?_, trivial⟩
      rw [hm.unique (dtls1FinishMessage_serialized hfinish)]
  · dsimp only
    rw [← hafter, numberAfter, foldl_append]
    rfl

/-- The receiver in front of a cursor: it waits for the next message, and has
    exactly the part before the offset. -/
structure Awaiting (ssl : DtlsHandshakeState κ) (cursor : Cursor) : Prop where
  numbered : Numbered ssl.handshakeReadSeq cursor.queue
  message : ssl.hasMessage = false
  slots : ∃ slot, ssl.incomingMessages =
      update (fun _ => none) (ringIndex ssl.handshakeReadSeq) slot ∧
    (cursor.offset = 0 → slot = none) ∧
    (cursor.offset ≠ 0 → ∃ msg rest m frag, cursor.queue = msg :: rest ∧
      HmMessage.Serialized m msg.data ∧ slot = some frag ∧
      frag.Holds m (Set.Ico 0 cursor.offset))

variable {env : HandshakeEnv} {ssl : DtlsHandshakeState κ}

def queuedMessages (queue : List DtlsOutgoingMessage) : List Bytes :=
  (queue.filter fun msg => !msg.isCcs).map DtlsOutgoingMessage.data

theorem dtls1GetMessage_holds {frag : HmFragment} {m : HmMessage} {received : Set Nat}
    (hslot : ssl.incomingMessages (ringIndex ssl.handshakeReadSeq) = some frag)
    (hholds : frag.Holds m received) : (frag.reassembly ≠ none → dtls1GetMessage ssl = none) ∧
    (frag.reassembly = none → dtls1GetMessage ssl = some
      ({ type := m.type, body := m.body, raw := m.raw, isV2Hello := false },
        { ssl with hasMessage := true })) := by
  unfold dtls1GetMessage
  rw [hslot]
  dsimp only
  constructor
  · intro hmissing
    rw [if_neg (by simpa using hmissing)]
  · intro hcomplete
    have hdata := hholds.data_of_complete hcomplete
    have hlength := hholds.length_eq
    rw [if_pos (by simpa using hcomplete), hholds.type_eq, hholds.msgLen_eq, ← hlength,
      take_length, hdata]
    have hbody : (m.raw.drop DTLS1_HM_HEADER_LENGTH).take m.body.length = m.body := by
      rw [HmMessage.raw, drop_left' (length_hmMessageHeader _ _ _), take_length]
    rw [hbody]

theorem Awaiting.receive {msg : DtlsOutgoingMessage} {queue : List DtlsOutgoingMessage}
    {offset len : Nat} {m : HmMessage} (hawait : Awaiting ssl ⟨msg :: queue, offset⟩)
    (hmsg : msg.isCcs = false) (hdata : m.Serialized msg.data)
    (hinside : offset + len ≤ m.body.length) (hsize : m.body.length ≤ env.maxHandshakeMessageLen)
    (hmalloc : ∀ hdr, (env.malloc hdr).isSome) (read : DtlsReadState κ) :
    m.seq = ssl.handshakeReadSeq ∧ ∃ frag, frag.Holds m (Set.Ico 0 (offset + len)) ∧
      dtls1HandleRecord env { ssl with toDtlsReadState := read } SSL3_RT_HANDSHAKE
        (m.fragment offset len) = (.success, { ssl with
          toDtlsReadState := read
          incomingMessages := update (fun _ => none) (ringIndex ssl.handshakeReadSeq)
            (some frag) }) := by
  obtain ⟨slot, hslots, hzero, hpart⟩ := hawait.slots
  have hnumbered := hawait.numbered
  rw [Numbered, if_neg (by rw [hmsg]; decide)] at hnumbered
  have hseq := hnumbered.1 m hdata
  refine ⟨hseq, ?_⟩
  have hlt := hdata.length_lt
  obtain ⟨received, hreceived, hholds⟩ : ∃ received : Set Nat,
      received ∪ Set.Ico offset (offset + len) = Set.Ico 0 (offset + len) ∧
      (slot = none ∧ received = ∅ ∨ ∃ frag, slot = some frag ∧ frag.Holds m received) := by
    by_cases hstart : offset = 0
    · refine ⟨∅, ?_, Or.inl ⟨hzero hstart, rfl⟩⟩
      rw [hstart, Set.empty_union]
    · obtain ⟨first, rest, m', frag, hfirst, hdata', hslot, hfrag⟩ := hpart hstart
      obtain ⟨rfl, -⟩ := List.cons.inj hfirst
      obtain rfl := hdata.unique hdata'
      exact ⟨Set.Ico 0 offset, Set.Ico_union_Ico_eq_Ico (Nat.zero_le _) (Nat.le_add_right _ _),
        Or.inr ⟨frag, hslot, hfrag⟩⟩
  obtain ⟨opened, hopened⟩ : ∃ opened : DtlsHandshakeState κ,
    opened = { ssl with toDtlsReadState := read } := ⟨_, rfl⟩
  have hreadSeq : opened.handshakeReadSeq = m.seq := by rw [hopened, hseq]
  have hcurrent : opened.incomingMessages (ringIndex m.seq) = slot := by
    rw [hopened]
    dsimp only
    rw [hslots, hseq, update_self]
  have hslice : m.Slice (m.header offset len) ((m.body.drop offset).take len) :=
    ⟨rfl, rfl, rfl, hinside, rfl⟩
  have hwindow : outsideWindow opened.handshakeReadSeq m.seq = false := by
    rw [hreadSeq]
    simp [outsideWindow, SSL_MAX_HANDSHAKE_FLIGHT]
  obtain ⟨frag, hprocess, hfrag⟩ := dtls1ProcessFragment_slice hwindow (fun _ => hreadSeq.symm)
    hcurrent hholds hslice hsize (hmalloc _)
  replace hfrag : frag.Holds m (Set.Ico 0 (offset + len)) := hreceived ▸ hfrag
  refine ⟨frag, hfrag, ?_⟩
  have hfits : (m.header offset len).Fits :=
    ⟨hlt, show offset < 2 ^ 24 by omega, show len < 2 ^ 24 by omega⟩
  have hbody : ((m.body.drop offset).take len).length = (m.header offset len).fragLen := by
    rw [length_take, length_drop]
    exact Nat.min_eq_left (by omega)
  have hhandle := dtls1HandleRecord_single hfits hbody hprocess
  rw [← hopened, HmMessage.fragment, hhandle, hopened]
  simp [DtlsHandshakeState.setIncoming, hslots, hseq]

/-- **The receiver follows the sender** by one record. -/
theorem receiveRecord_emits {read : DtlsReadState κ} {record : SealedRecord}
    (hmalloc : ∀ hdr, (env.malloc hdr).isSome)
    (hsize : ∀ msg ∈ cursor.queue, ∀ m : HmMessage, m.Serialized msg.data →
      m.body.length ≤ env.maxHandshakeMessageLen) (hawait : Awaiting ssl cursor)
    (hstep : EmitStep cursor record cursor')
    (hopen : (dtlsOpenRecord read record.bytes).1 = .success record.type record.plaintext)
    (hccs : record.type = SSL3_RT_CHANGE_CIPHER_SPEC → read.aeadReadCtx.isNullCipher = true) :
    ∃ messages ssl', receiveRecord env ssl read record.bytes = some (messages, ssl') ∧
      Awaiting ssl' cursor' ∧ messages.map SslMessage.raw ++ queuedMessages cursor'.queue =
        queuedMessages cursor.queue := by
  have hmessage := hawait.message
  have hnumbered := hawait.numbered
  rcases hresult : dtlsOpenRecord read record.bytes with ⟨ret, consumed, read'⟩
  rw [hresult] at hopen
  obtain rfl : ret = .success record.type record.plaintext := hopen
  have hslot (frag : HmFragment) : update (fun _ => none) (ringIndex ssl.handshakeReadSeq)
      (some frag) (ringIndex ssl.handshakeReadSeq) = some frag := update_self ..
  unfold receiveRecord dtls1OpenHandshake
  rw [hresult]
  dsimp only
  cases hstep with
  | @changeCipherSpec msg queue _ hisCcs htype hplain =>
    -- the record layer leaves the context alone, so the null cipher is still there
    have hnull : read'.aeadReadCtx.isNullCipher = true := by
      have hkeep : read'.aeadReadCtx = read.aeadReadCtx := by
        have hcases := dtlsOpenRecord_cases read record.bytes
        rw [hresult] at hcases
        rcases hcases with ⟨hnone, -⟩ | ⟨_, _, _, _, _, _, _, _, haead, -⟩
        · exact absurd rfl (hnone _ _)
        · exact haead
      rw [hkeep]
      exact hccs htype
    obtain ⟨slot, hslots, hzero, -⟩ := hawait.slots
    obtain rfl := hzero rfl
    rw [update_eq_self] at hslots
    have hhandle : dtls1HandleRecord env { ssl with toDtlsReadState := read' } record.type
        record.plaintext = (.success, { ssl with
          toDtlsReadState := read', hasChangeCipherSpec := true }) := by
      rw [dtls1HandleRecord, htype, hplain, if_neg (by decide), if_pos rfl]
      simp [hnull]
    have hget : dtls1GetMessage ({ ssl with
        toDtlsReadState := read', hasChangeCipherSpec := true } : DtlsHandshakeState κ) = none := by
      rw [dtls1GetMessage, hslots]
    rw [hhandle]
    dsimp only
    rw [hget]
    rw [Numbered, if_pos hisCcs] at hnumbered
    refine ⟨[], _, rfl, ⟨hnumbered, hmessage, none, ?_, fun _ => rfl, fun h => absurd rfl h⟩, ?_⟩
    · dsimp only
      rw [hslots, update_eq_self]
    · simp [queuedMessages, hisCcs]
  | @lastFragment msg queue _ offset m hmsg hdata hoffset htype hplain =>
    have hle : offset ≤ m.body.length := by
      rcases hoffset with rfl | hlt
      · exact Nat.zero_le _
      · exact Nat.le_of_lt hlt
    obtain ⟨hseq, frag, hfrag, hhandle⟩ := hawait.receive hmsg hdata
      (show offset + (m.body.length - offset) ≤ m.body.length by omega)
      (hsize msg mem_cons_self m hdata) hmalloc read'
    rw [Nat.add_sub_cancel' hle] at hfrag
    have hcomplete : frag.reassembly = none :=
      hfrag.complete_iff.mpr fun k hk => Set.mem_Ico.mpr ⟨Nat.zero_le k, hk⟩
    rw [htype, hplain, hhandle]
    dsimp only
    rw [(dtls1GetMessage_holds (hslot frag) hfrag).2 hcomplete]
    have hnext : dtls1NextMessage ({ ssl with
        toDtlsReadState := read'
        incomingMessages := update (fun _ => none) (ringIndex ssl.handshakeReadSeq)
          (some frag)
        hasMessage := true } : DtlsHandshakeState κ) = some { ssl with
          toDtlsReadState := read'
          incomingMessages := fun _ => none
          handshakeReadSeq := ssl.handshakeReadSeq + 1
          hasMessage := false
          flightHasReply := ssl.outgoingMessagesComplete || ssl.flightHasReply } := by
      simp [dtls1NextMessage, dtls1IsCurrentMessageComplete, hcomplete,
        DtlsHandshakeState.setIncoming]
    dsimp only
    rw [hnext]
    rw [Numbered, if_neg (by rw [hmsg]; decide)] at hnumbered
    refine ⟨_, _, rfl, ⟨hnumbered.2, rfl, none, ?_, fun _ => rfl, fun h => absurd rfl h⟩, ?_⟩
    · rw [update_eq_self]
    · simp [queuedMessages, hmsg, hdata.data_eq]
  | @fragment msg queue _ offset m len hmsg hdata hlen hinside htype hplain =>
    obtain ⟨hseq, frag, hfrag, hhandle⟩ := hawait.receive hmsg hdata (Nat.le_of_lt hinside)
      (hsize msg mem_cons_self m hdata) hmalloc read'
    have hmissing : frag.reassembly ≠ none := by
      intro hcomplete
      have hmem := hfrag.complete_iff.mp hcomplete (offset + len) hinside
      exact absurd (Set.mem_Ico.mp hmem).2 (Nat.lt_irrefl _)
    rw [htype, hplain, hhandle]
    dsimp only
    rw [(dtls1GetMessage_holds (hslot frag) hfrag).1 hmissing]
    refine ⟨[], _, rfl, ⟨hnumbered, hmessage, some frag, rfl, ?_, ?_⟩, rfl⟩
    · intro hzero
      dsimp only at hzero
      omega
    · intro _
      exact ⟨msg, queue, m, frag, rfl, hdata, rfl, hfrag⟩

theorem EmitStep.queue_subset {record : SealedRecord} (h : EmitStep cursor record cursor') :
    ∀ msg ∈ cursor'.queue, msg ∈ cursor.queue := by
  cases h with
  | changeCipherSpec | lastFragment => exact fun msg hmem => mem_cons_of_mem _ hmem
  | fragment => exact fun msg hmem => hmem

/-- The read states in which the peer opens the records: its record layer returns
    what was sealed, and a ChangeCipherSpec comes before the keys. -/
def Opens (reads : List (DtlsReadState κ)) (records : List SealedRecord) : Prop :=
  List.Forall₂ (fun read record =>
    (dtlsOpenRecord read record.bytes).1 = .success record.type record.plaintext ∧
    (record.type = SSL3_RT_CHANGE_CIPHER_SPEC → read.aeadReadCtx.isNullCipher = true))
    reads records

/-- **The receiver follows the sender** over a whole flight. -/
theorem receiveRecords_emits (hmalloc : ∀ hdr, (env.malloc hdr).isSome)
    {records : List SealedRecord} {reads : List (DtlsReadState κ)} (hreads : Opens reads records)
    (hawait : Awaiting ssl cursor)
    (hsize : ∀ msg ∈ cursor.queue, ∀ m : HmMessage, m.Serialized msg.data →
      m.body.length ≤ env.maxHandshakeMessageLen) (hemits : Emits cursor records cursor') :
    ∃ messages ssl', receiveRecords env ssl (reads.zip (records.map bytes)) =
        some (messages, ssl') ∧ Awaiting ssl' cursor' ∧
      messages.map SslMessage.raw ++ queuedMessages cursor'.queue =
        queuedMessages cursor.queue := by
  induction hreads generalizing ssl cursor with
  | nil =>
    cases hemits
    exact ⟨[], ssl, rfl, hawait, rfl⟩
  | @cons read record reads records hopens _ ih =>
    obtain ⟨next, hstep, hrest⟩ := hemits
    obtain ⟨messages, ssl₁, hreceive, hawait₁, hqueue⟩ :=
      receiveRecord_emits hmalloc hsize hawait hstep hopens.1 hopens.2
    obtain ⟨later, ssl₂, hreceive₂, hawait₂, hqueue₂⟩ :=
      ih hawait₁ (fun msg hmem => hsize msg (hstep.queue_subset msg hmem)) hrest
    refine ⟨messages ++ later, ssl₂, ?_, hawait₂, ?_⟩
    · simp [receiveRecords, hreceive, hreceive₂]
    · rw [map_append, append_assoc, hqueue₂, hqueue]

/-! ### The calls that send one flight -/

/-- The calls of `send_flight` for one flight: any number whose `BIO_write` fails, and a last one
    that succeeds.  `handed` are all packets given to the BIO, each with the MTU in force, and
    `sent` the records of those accepted. -/
inductive FlightRun : DtlsFlightState κ → List (Nat × List SealedRecord) → List SealedRecord →
    DtlsFlightState κ → Prop where
  | success {env ssl handed last} (hsend : sendFlight env ssl = (.success, handed, last)) :
      FlightRun ssl (handed.map fun packet => ((dtls1UpdateMtu env.queryMtu ssl).mtu, packet))
        handed.flatten last
  | retry {env ssl accepted refused failed next handed sent last}
      (hsend : sendFlight env ssl = (.bioWriteFailed, accepted ++ [refused], failed))
      (hmessages : next.outgoingMessages = failed.outgoingMessages)
      (hwritten : next.outgoingWritten = failed.outgoingWritten)
      (hoffset : next.outgoingOffset = failed.outgoingOffset)
      (hnext : FlightRun next handed sent last) :
      FlightRun ssl (((accepted ++ [refused]).map fun packet =>
          ((dtls1UpdateMtu env.queryMtu ssl).mtu, packet)) ++ handed)
        (accepted.flatten ++ sent) last

theorem FlightRun.emits {first last : DtlsFlightState κ} {handed : List (Nat × List SealedRecord)}
    {sent : List SealedRecord} (hrun : FlightRun first handed sent last)
    (hvalid : first.cursor.Valid) : (∀ entry ∈ handed, (packetBytes entry.2).length ≤ entry.1) ∧
      ∃ finish : Cursor, finish.queue = [] ∧ Emits first.cursor sent finish := by
  induction hrun with
  | success hsend =>
    obtain ⟨hemits, hcursor, -⟩ := sendFlight_emits hvalid hsend
    obtain ⟨-, hend, hsent⟩ := hemits.success rfl
    refine ⟨?_, _, hend, hcursor ▸ hsent⟩
    rintro entry hentry
    obtain ⟨packet, hpacket, rfl⟩ := mem_map.mp hentry
    exact hemits.length_le packet hpacket
  | @retry env ssl accepted refused failed next handed sent last hsend hmessages hwritten hoffset
      hnext ih =>
    obtain ⟨hemits, hcursor, -⟩ := sendFlight_emits hvalid hsend
    obtain ⟨-, accepted', refused', hsplit, hsent⟩ := hemits.failed rfl
    obtain ⟨rfl, -⟩ := append_inj' hsplit rfl
    rw [hcursor] at hsent
    have hsame : next.cursor = failed.cursor := by
      simp [DtlsFlightState.cursor, hmessages, hwritten, hoffset]
    obtain ⟨hlengths, finish, hend, hrest⟩ := ih (by rw [hsame]; exact hsent.valid hvalid)
    rw [hsame] at hrest
    refine ⟨?_, finish, hend, hsent.append hrest⟩
    rintro entry hentry
    rcases mem_append.mp hentry with hhanded | hlater
    · obtain ⟨packet, hpacket, rfl⟩ := mem_map.mp hhanded
      exact hemits.length_le packet hpacket
    · exact hlengths entry hlater

/-- **Sending a flight.**  For a queue sent from its start, by a call of `send_flight` that succeeds
    after any number of calls whose `BIO_write` failed: every packet handed to the BIO is at most
    the MTU; the records of the packets accepted, over all the calls, are the ChangeCipherSpecs and,
    for each handshake message, consecutive fragments from its start to its end, in queue order; and
    a peer that waits for the first message, with room for the messages, and that opens the records,
    takes exactly the queued messages. -/
theorem send_flight_exact {κ' : Type} {first last : DtlsFlightState κ}
    {handed : List (Nat × List SealedRecord)} {sent : List SealedRecord}
    (hrun : FlightRun first handed sent last) (hwritten : first.outgoingWritten = 0)
    (hoffset : first.outgoingOffset = 0) :
    (∀ entry ∈ handed, (packetBytes entry.2).length ≤ entry.1) ∧
    FlightPieces 0 first.outgoingMessages (sent.map content) ∧
    ∀ (env : HandshakeEnv) (peer : DtlsHandshakeState κ') (reads : List (DtlsReadState κ')),
      Numbered peer.handshakeReadSeq first.outgoingMessages → peer.hasMessage = false →
      (∀ i, peer.incomingMessages i = none) → (∀ hdr, (env.malloc hdr).isSome) →
      (∀ msg ∈ first.outgoingMessages, ∀ m : HmMessage, m.Serialized msg.data →
        m.body.length ≤ env.maxHandshakeMessageLen) → Opens reads sent →
      ∃ messages peer', receiveRecords env peer (reads.zip (sent.map bytes)) =
        some (messages, peer') ∧
        messages.map SslMessage.raw = queuedMessages first.outgoingMessages := by
  have hcursor : first.cursor = { queue := first.outgoingMessages, offset := 0 } := by
    rw [DtlsFlightState.cursor, hwritten, hoffset, drop_zero]
  obtain ⟨hlengths, finish, hend, hemits⟩ := hrun.emits (Or.inl (by rw [hcursor]))
  rw [hcursor] at hemits
  refine ⟨hlengths, hemits.flightPieces hend, ?_⟩
  intro env peer reads hnumbered hmessage hslots hmalloc hsize hreads
  have hawait : Awaiting peer { queue := first.outgoingMessages, offset := 0 } := by
    refine ⟨hnumbered, hmessage, none, ?_, fun _ => rfl, fun h => absurd rfl h⟩
    rw [update_eq_self]
    exact funext hslots
  obtain ⟨messages, peer', hreceive, -, hqueue⟩ :=
    receiveRecords_emits hmalloc hreads hawait hsize hemits
  refine ⟨messages, peer', hreceive, ?_⟩
  rw [hend] at hqueue
  simpa [queuedMessages] using hqueue

def sampleMessage : HmMessage := { type := 1, seq := 0, body := [1, 2, 3] }

def sampleFlight : DtlsFlightState Unit where
  aeadWriteCtx := SslAeadContext.createNullCipher EvpAead.unset () true
  writeSequence := SequenceNumber.zeroed
  wEpoch := 0
  lastAeadWriteCtx := SslAeadContext.createNullCipher EvpAead.unset () true
  lastWriteSequence := SequenceNumber.zeroed
  writeShutdown := .none
  hasWbio := true
  handshakeWriteSeq := 1
  outgoingMessages :=
    [{ data := sampleMessage.raw, epoch := 0, isCcs := false },
      { data := [], epoch := 0, isCcs := true }]
  outgoingWritten := 0
  outgoingOffset := 0
  outgoingMessagesComplete := true
  mtu := kMinMTU
  noQueryMtu := false
  flight_le := by decide

def sampleTransport (ret : Int) : FlightEnv :=
  { queryMtu := 0, allocOk := true, bioWrite := fun _ _ => ret, bioFlush := 1 }

def samplePeerEnv : HandshakeEnv :=
  { malloc := fun _ => some fun _ => 0, maxHandshakeMessageLen := 100 }

/-- The first attempt is refused, the second not, and a fresh receiver takes the message. -/
theorem send_flight_exact_sample : ∃ handed sent last, FlightRun sampleFlight handed sent last ∧
      FlightPieces 0 sampleFlight.outgoingMessages (sent.map content) ∧
      ∃ messages peer', receiveRecords samplePeerEnv freshReceiver
        ((List.replicate 2 freshReceiver.toDtlsReadState).zip (sent.map bytes)) =
        some (messages, peer') ∧ messages.map SslMessage.raw = [sampleMessage.raw] := by
  obtain ⟨handed, sent, last, hrun, hopens⟩ : ∃ handed sent last,
      FlightRun sampleFlight handed sent last ∧
      Opens (List.replicate 2 freshReceiver.toDtlsReadState) sent := by
    have hrefused : ∃ packet failed, sendFlight (sampleTransport (-1)) sampleFlight =
        (.bioWriteFailed, [] ++ [packet], failed) := ⟨_, _, rfl⟩
    obtain ⟨packet, failed, hrefused⟩ := hrefused
    have hfailed := congrArg (fun result => result.2.2) hrefused
    subst hfailed
    have haccepted : ∃ handed last, sendFlight (sampleTransport 1)
        (sendFlight (sampleTransport (-1)) sampleFlight).2.2 = (.success, handed, last) ∧
        Opens (List.replicate 2 freshReceiver.toDtlsReadState) handed.flatten := by
      refine ⟨_, _, rfl, ?_⟩
      exact .cons ⟨by decide, by decide⟩ (.cons ⟨by decide, fun _ => rfl⟩ .nil)
    obtain ⟨handed, last, haccepted, hopens⟩ := haccepted
    exact ⟨_, _, last, FlightRun.retry hrefused rfl rfl rfl (FlightRun.success haccepted),
      hopens⟩
  have hunique : ∀ m : HmMessage, m.Serialized sampleMessage.raw → m = sampleMessage :=
    fun m hm => hm.unique ⟨rfl, by decide⟩
  obtain ⟨-, hpieces, hpeer⟩ := send_flight_exact hrun rfl rfl
  refine ⟨handed, sent, last, hrun, hpieces, ?_⟩
  refine hpeer samplePeerEnv freshReceiver (List.replicate 2 freshReceiver.toDtlsReadState)
    ⟨fun m hm => by rw [hunique m hm]; rfl, trivial⟩ rfl (fun _ => rfl) (fun _ => rfl) ?_ hopens
  intro msg hmem m hm
  simp only [sampleFlight, mem_cons, not_mem_nil, or_false] at hmem
  rcases hmem with rfl | rfl
  · rw [hunique m hm]
    decide
  · have hlength := congrArg List.length hm.data_eq
    simp [HmMessage.raw, DTLS1_HM_HEADER_LENGTH] at hlength
    omega

/-! ### Filling the queue -/

open DtlsFlightState

def DtlsFlightState.queued (ssl : DtlsFlightState κ) : List DtlsOutgoingMessage × UInt16 :=
  (ssl.outgoingMessages, ssl.handshakeWriteSeq)

theorem sealNextMessage_queued (ssl : DtlsFlightState κ) (maxOut : Nat)
    (msg : DtlsOutgoingMessage) : (sealNextMessage ssl maxOut msg).2.queued = ssl.queued := by
  have hseal {type input useEpoch} {record : Option SealedRecord} {sealed : DtlsFlightState κ}
      (h : ssl.sealRecord maxOut type input useEpoch = (record, sealed)) :
      sealed.queued = ssl.queued := (congrArg (fun result => result.2.queued) h).symm
  unfold sealNextMessage
  split
  · rfl
  · dsimp only
    split
    · -- a ChangeCipherSpec
      split
      · rfl
      · split <;> exact hseal ‹_›
    · split
      · rfl
      · split
        · rfl
        · split
          · rfl
          · split
            · exact hseal ‹_›
            · next sealed hrecord =>
              have hqueued := hseal hrecord
              split <;> exact hqueued

theorem sealPacketLoop_queued (fuel : Nat) (ssl : DtlsFlightState κ) (maxOut : Nat)
    (packet : List SealedRecord) :
    (sealPacketLoop fuel ssl maxOut packet).2.queued = ssl.queued := by
  induction fuel generalizing ssl maxOut packet with
  | zero => rfl
  | succ fuel ih =>
    rw [sealPacketLoop]
    split
    · rfl
    · next msg _ =>
      have hsealed := sealNextMessage_queued ssl maxOut msg
      rcases hseal : sealNextMessage ssl maxOut msg with ⟨result, sealed⟩
      rw [hseal] at hsealed
      cases result with
      | error => exact hsealed
      | noProgress => exact hsealed
      | partialMessage record => exact hsealed
      | success record => exact (ih _ _ _).trans hsealed

theorem sendFlight_queued (env : FlightEnv) (ssl : DtlsFlightState κ) :
    (sendFlight env ssl).2.2.queued = ssl.queued := by
  have hloop (fuel : Nat) (ssl : DtlsFlightState κ) (handed : List (List SealedRecord)) :
      (sendLoop env fuel ssl handed).2.2.queued = ssl.queued := by
    induction fuel generalizing ssl handed with
    | zero => rfl
    | succ fuel ih =>
      rw [sendLoop]
      split
      · have hsealed : (sealNextPacket ssl ssl.mtu).2.queued = ssl.queued :=
          sealPacketLoop_queued ..
        rcases hseal : sealNextPacket ssl ssl.mtu with ⟨packet, sealed⟩
        rw [hseal] at hsealed
        cases packet with
        | none => exact hsealed
        | some packet =>
          dsimp only
          split
          · exact hsealed
          · exact (ih _ _).trans hsealed
      · split <;> rfl
  have hmtu : (dtls1UpdateMtu env.queryMtu ssl).queued = ssl.queued := by
    unfold dtls1UpdateMtu
    split <;> rfl
  unfold sendFlight
  split
  · rfl
  · split
    · rfl
    · dsimp only
      split
      · exact hmtu
      · exact (hloop _ _ _).trans hmtu

/-- What a connection does with the queue: `flush` and `retransmit` are `dtls1_flush_flight` and
    `dtls1_retransmit_outgoing_messages`. -/
inductive QueueEvent where
  | message (type : UInt8) (body : Bytes)
  | changeCipherSpec
  | flush (env : FlightEnv)
  | retransmit (env : FlightEnv)
  | clear

def queueStep (ssl : DtlsFlightState κ) : QueueEvent → Option (DtlsFlightState κ)
  | .message type body => do
    let data ← dtls1FinishMessage ssl.handshakeWriteSeq type body
    addOutgoing true ssl false data
  | .changeCipherSpec => addOutgoing true ssl true []
  | .flush env => some (sendFlight env { ssl with outgoingMessagesComplete := true }).2.2
  | .retransmit env =>
    some (sendFlight env { ssl with outgoingWritten := 0, outgoingOffset := 0 }).2.2
  | .clear => some (dtlsClearOutgoingMessages ssl)

/-- **The queue is numbered.**  After any events from an empty queue the entries in it, over however
    many flights, are whole messages with consecutive numbers that end below
    `handshake_write_seq`. -/
theorem queue_numbered {start final : DtlsFlightState κ} {events : List QueueEvent}
    (hstart : start.outgoingMessages = [])
    (hrun : Runs.run queueStep start events = some final) : final.QueueNumbered := by
  have hsame {ssl next : DtlsFlightState κ} (h : next.queued = ssl.queued)
      (hqueue : ssl.QueueNumbered) : next.QueueNumbered := by
    obtain ⟨hmessages, hseq⟩ := Prod.mk.inj h
    rwa [QueueNumbered, hmessages, hseq]
  refine Runs.run_induct DtlsFlightState.QueueNumbered (fun _ => True) ?_ (fun _ _ => trivial)
    ⟨by rw [hstart]; exact forall_mem_nil _, start.handshakeWriteSeq,
      by rw [hstart]; exact ⟨trivial, rfl⟩⟩ hrun
  intro ssl event next hqueue _ hstep
  cases event with
  | message type body =>
    obtain ⟨data, hdata, hadd⟩ := Option.bind_eq_some_iff.mp hstep
    exact addOutgoing_numbered hqueue (fun _ => ⟨type, body, hdata⟩) hadd
  | changeCipherSpec => exact addOutgoing_numbered hqueue (by nofun) hstep
  | flush env =>
    cases hstep
    exact hsame (sendFlight_queued env _) hqueue
  | retransmit env =>
    cases hstep
    exact hsame (sendFlight_queued env _) hqueue
  | clear =>
    cases hstep
    exact ⟨forall_mem_nil _, ssl.handshakeWriteSeq, trivial, rfl⟩

theorem queue_numbered_sample : ∃ final, Runs.run queueStep (dtlsClearOutgoingMessages sampleFlight)
    [.message 1 [0], .flush (sampleTransport 1), .message 2 []] = some final ∧
      final.QueueNumbered := by
  refine ⟨_, rfl, ?_⟩
  exact @queue_numbered _ (dtlsClearOutgoingMessages sampleFlight) _
    [.message 1 [0], .flush (sampleTransport 1), .message 2 []] rfl rfl

end AwsLc
