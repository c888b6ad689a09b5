import AwsLc.DtlsReassembly
import AwsLc.DtlsRecord

/-!
# Receiving DTLS handshake messages (`d1_both.cc`)

Incoming messages wait in a ring of `SSL_MAX_HANDSHAKE_FLIGHT` slots, by their number modulo 7, of
which `Ring` is the invariant.  Fragments outside the window that starts at `handshake_read_seq` are
dropped.  A call that fails an assertion of the source ends in `assertionFailed`.
-/

namespace AwsLc

def SSL_MAX_HANDSHAKE_FLIGHT : Nat := 7
def SSL3_MT_CCS : UInt8 := 1

structure DtlsHandshakeState (κ : Type) extends DtlsReadState κ where
  hasChangeCipherSpec : Bool
  handshakeReadSeq : UInt16
  incomingMessages : Fin SSL_MAX_HANDSHAKE_FLIGHT → Option HmFragment
  hasMessage : Bool
  outgoingMessagesComplete : Bool
  flightHasReply : Bool

/-- What a call gets from its surroundings: the result of each allocation, and
    the value of `ssl_max_handshake_message_len`. -/
structure HandshakeEnv where
  malloc : HmHeader → Option (Nat → UInt8)
  maxHandshakeMessageLen : Nat

inductive HandshakeFailure where
  | alert (alert : UInt8)
  | assertion
deriving DecidableEq, Repr

/-- `ssl_open_record_t` of the handshake functions. -/
inductive OpenHandshake where
  | success
  | discard
  | partialRecord
  | closeNotify
  | error (alert : UInt8)
  | assertionFailed
deriving DecidableEq, Repr

variable {κ : Type}

/-! ### The source's functions -/

/-- `seq % SSL_MAX_HANDSHAKE_FLIGHT`. -/
def ringIndex (seq : UInt16) : Fin SSL_MAX_HANDSHAKE_FLIGHT :=
  ⟨seq.toNat % SSL_MAX_HANDSHAKE_FLIGHT, Nat.mod_lt _ (by decide)⟩

/-- The window test, made in the loop and again in `dtls1_get_incoming_message`. -/
def outsideWindow (readSeq seq : UInt16) : Bool :=
  seq < readSeq || seq.toNat - readSeq.toNat ≥ SSL_MAX_HANDSHAKE_FLIGHT

variable (ssl : DtlsHandshakeState κ)

def dtls1IsCurrentMessageComplete : Bool :=
  match ssl.incomingMessages (ringIndex ssl.handshakeReadSeq) with
  | some frag => frag.reassembly.isNone
  | none => false

def DtlsHandshakeState.setIncoming
    (idx : Fin SSL_MAX_HANDSHAKE_FLIGHT) (frag : Option HmFragment) : DtlsHandshakeState κ :=
  { ssl with incomingMessages := Function.update ssl.incomingMessages idx frag }

variable (env : HandshakeEnv)

def dtls1GetIncomingMessage (ssl : DtlsHandshakeState κ)
    (msgHdr : HmHeader) : Except HandshakeFailure (HmFragment × DtlsHandshakeState κ) :=
  if outsideWindow ssl.handshakeReadSeq msgHdr.seq then .error (.alert SSL_AD_ILLEGAL_PARAMETER)
  else
    match ssl.incomingMessages (ringIndex msgHdr.seq) with
    | some frag =>
      if frag.seq ≠ msgHdr.seq then .error .assertion
      else if frag.type ≠ msgHdr.type ∨ frag.msgLen ≠ msgHdr.msgLen then
        .error (.alert SSL_AD_ILLEGAL_PARAMETER)
      else .ok (frag, ssl)
    | none =>
      -- This is the first fragment from this message.
      match dtls1HmFragmentNew (env.malloc msgHdr) msgHdr with
      | none => .error (.alert SSL_AD_INTERNAL_ERROR)
      | some frag => .ok (frag, ssl.setIncoming (ringIndex msgHdr.seq) (some frag))

/-- The body of the loop in `dtls1_open_handshake`, for one parsed fragment. -/
def dtls1ProcessFragment (ssl : DtlsHandshakeState κ) (msgHdr : HmHeader) (body : Bytes) :
    Except HandshakeFailure (DtlsHandshakeState κ) :=
  if msgHdr.fragOff > msgHdr.msgLen ∨ msgHdr.fragOff + msgHdr.fragLen > msgHdr.msgLen ∨
      msgHdr.msgLen > env.maxHandshakeMessageLen then
    .error (.alert SSL_AD_ILLEGAL_PARAMETER)
  -- The encrypted epoch in DTLS has only one handshake message.
  else if ssl.rEpoch = 1 ∧ msgHdr.seq ≠ ssl.handshakeReadSeq then
    .error (.alert SSL_AD_UNEXPECTED_MESSAGE)
  -- Ignore fragments from the past, or ones too far in the future.
  else if outsideWindow ssl.handshakeReadSeq msgHdr.seq then .ok ssl
  else
    match dtls1GetIncomingMessage env ssl msgHdr with
    | .error failure => .error failure
    | .ok (frag, ssl) =>
      if frag.msgLen ≠ msgHdr.msgLen then .error .assertion
      else
        match frag.receive msgHdr body with
        | none => .error .assertion
        | some frag => .ok (ssl.setIncoming (ringIndex msgHdr.seq) (some frag))

/-- The loop of `dtls1_open_handshake`, in which every iteration consumes a fragment header. -/
def dtls1ProcessFragments (env : HandshakeEnv) :
    Nat → DtlsHandshakeState κ → Bytes → Option HandshakeFailure × DtlsHandshakeState κ
  | 0, ssl, _ => (none, ssl)
  | fuel + 1, ssl, cbs =>
    if cbs = [] then (none, ssl)
    else
      match dtls1ParseFragment cbs with
      | none => (some (.alert SSL_AD_DECODE_ERROR), ssl)
      | some (msgHdr, body, cbs) =>
        match dtls1ProcessFragment env ssl msgHdr body with
        | .error failure => (some failure, ssl)
        | .ok ssl => dtls1ProcessFragments env fuel ssl cbs

/-- `dtls1_open_handshake` from the switch on the record type on. -/
def dtls1HandleRecord (ssl : DtlsHandshakeState κ)
    (type : UInt8) (record : Bytes) : OpenHandshake × DtlsHandshakeState κ :=
  if type = SSL3_RT_APPLICATION_DATA then
    -- Out-of-order application data may be received between ChangeCipherSpec
    -- and finished; unencrypted application data is always illegal.
    if ssl.aeadReadCtx.isNullCipher then (.error SSL_AD_UNEXPECTED_MESSAGE, ssl)
    else (.discard, ssl)
  else if type = SSL3_RT_CHANGE_CIPHER_SPEC then
    if !ssl.aeadReadCtx.isNullCipher then (.error SSL_AD_UNEXPECTED_MESSAGE, ssl)
    else if record ≠ [SSL3_MT_CCS] then (.error SSL_AD_ILLEGAL_PARAMETER, ssl)
    else (.success, { ssl with hasChangeCipherSpec := true })
  else if type = SSL3_RT_HANDSHAKE then
    match dtls1ProcessFragments env record.length ssl record with
    | (none, ssl) => (.success, ssl)
    | (some (.alert alert), ssl) => (.error alert, ssl)
    | (some .assertion, ssl) => (.assertionFailed, ssl)
  else (.error SSL_AD_UNEXPECTED_MESSAGE, ssl)

/-- `dtls1_open_handshake`: the result, `*out_consumed` and the state after it. -/
def dtls1OpenHandshake (ssl : DtlsHandshakeState κ) (packet : Bytes) :
    OpenHandshake × Nat × DtlsHandshakeState κ :=
  match dtlsOpenRecord ssl.toDtlsReadState packet with
  | (.success type record, consumed, read) =>
    let (ret, ssl) := dtls1HandleRecord env { ssl with toDtlsReadState := read } type record
    (ret, consumed, ssl)
  | (.discard, consumed, read) => (.discard, consumed, { ssl with toDtlsReadState := read })
  | (.partialRecord, consumed, read) =>
    (.partialRecord, consumed, { ssl with toDtlsReadState := read })
  | (.closeNotify, consumed, read) =>
    (.closeNotify, consumed, { ssl with toDtlsReadState := read })
  | (.error alert, consumed, read) =>
    (.error alert, consumed, { ssl with toDtlsReadState := read })

def dtls1OpenChangeCipherSpec (ssl : DtlsHandshakeState κ)
    (packet : Bytes) : OpenHandshake × Nat × DtlsHandshakeState κ :=
  let (ret, consumed, ssl) :=
    if !ssl.hasChangeCipherSpec then dtls1OpenHandshake env ssl packet
    else (.success, 0, ssl)
  if ret ≠ .success then (ret, consumed, ssl)
  else if ssl.hasChangeCipherSpec then
    (.success, consumed, { ssl with hasChangeCipherSpec := false })
  else (.discard, consumed, ssl)

structure SslMessage where
  type : UInt8
  body : Bytes
  raw : Bytes
  isV2Hello : Bool
deriving DecidableEq, Repr

def dtls1GetMessage : Option (SslMessage × DtlsHandshakeState κ) :=
  match ssl.incomingMessages (ringIndex ssl.handshakeReadSeq) with
  | some frag =>
    if frag.reassembly.isNone then
      some ({ type := frag.type
              body := (frag.data.drop DTLS1_HM_HEADER_LENGTH).take frag.msgLen
              raw := frag.data.take (DTLS1_HM_HEADER_LENGTH + frag.msgLen)
              isV2Hello := false },
        { ssl with hasMessage := true })
    else none
  | none => none

/-- `dtls1_next_message`; `none` is a failed assertion. -/
def dtls1NextMessage : Option (DtlsHandshakeState κ) :=
  if !ssl.hasMessage then none
  else if !dtls1IsCurrentMessageComplete ssl then none
  else
    let ssl := ssl.setIncoming (ringIndex ssl.handshakeReadSeq) none
    some { ssl with
      handshakeReadSeq := ssl.handshakeReadSeq + 1
      hasMessage := false
      flightHasReply := ssl.outgoingMessagesComplete || ssl.flightHasReply }

/-- The loop of `dtls_has_unprocessed_handshake_data`, over the remaining slots. -/
def hasUnprocessedFrom (ssl : DtlsHandshakeState κ) :
    List (Fin SSL_MAX_HANDSHAKE_FLIGHT) → Option Bool
  | [] => some false
  | i :: rest =>
    -- Skip the current message.
    if ssl.hasMessage ∧ i = ringIndex ssl.handshakeReadSeq then
      if dtls1IsCurrentMessageComplete ssl then hasUnprocessedFrom ssl rest else none
    else if (ssl.incomingMessages i).isSome then some true
    else hasUnprocessedFrom ssl rest

/-- `dtls_has_unprocessed_handshake_data`; `none` is a failed assertion. -/
def dtlsHasUnprocessedHandshakeData : Option Bool :=
  hasUnprocessedFrom ssl (List.finRange SSL_MAX_HANDSHAKE_FLIGHT)

/-- `dtls1_set_read_state`, which refuses to change the key over leftover data; `none` is a failed
    assertion. -/
def dtls1SetReadState (aeadCtx : SslAeadContext κ) :
    Option (Bool × DtlsHandshakeState κ) := do
  if ← dtlsHasUnprocessedHandshakeData ssl then
    return (false, ssl)
  else
    return (true, { ssl with
      rEpoch := ssl.rEpoch + 1
      bitmap := {}
      aeadReadCtx := aeadCtx
      hasChangeCipherSpec := false })

/-! ### The ring invariant -/

/-- The number of a fragment in slot `i` lies in the window and belongs there. -/
structure InSlot (readSeq seq : UInt16) (i : Fin SSL_MAX_HANDSHAKE_FLIGHT) : Prop where
  lower : readSeq ≤ seq
  upper : seq.toNat < readSeq.toNat + SSL_MAX_HANDSHAKE_FLIGHT
  index : seq.toNat % SSL_MAX_HANDSHAKE_FLIGHT = i

/-- **The receive ring.**  Every occupied slot holds a fragment of the message
    that belongs there, and a message reported to the caller is complete. -/
structure DtlsHandshakeState.Ring (ssl : DtlsHandshakeState κ) : Prop where
  slot : ∀ i frag, ssl.incomingMessages i = some frag →
    InSlot ssl.handshakeReadSeq frag.seq i ∧ frag.WellFormed
  message : ssl.hasMessage = true → dtls1IsCurrentMessageComplete ssl = true

theorem outsideWindow_eq_false {readSeq seq : UInt16} :
    outsideWindow readSeq seq = false ↔ InSlot readSeq seq (ringIndex seq) := by
  simp only [outsideWindow, Bool.or_eq_false_iff, decide_eq_false_iff_not, UInt16.not_lt,
    Nat.not_le]
  constructor
  · rintro ⟨hlower, hupper⟩
    exact ⟨hlower, by have := UInt16.le_iff_toNat_le.mp hlower; omega, rfl⟩
  · rintro ⟨hlower, hupper, -⟩
    exact ⟨hlower, by have := UInt16.le_iff_toNat_le.mp hlower; omega⟩

theorem InSlot.eq {readSeq seq seq' : UInt16} {i : Fin SSL_MAX_HANDSHAKE_FLIGHT}
    (h : InSlot readSeq seq i) (h' : InSlot readSeq seq' i) : seq = seq' := by
  have hlower := UInt16.le_iff_toNat_le.mp h.lower
  have hlower' := UInt16.le_iff_toNat_le.mp h'.lower
  have hupper := h.upper
  have hupper' := h'.upper
  have hindex := h.index.trans h'.index.symm
  unfold SSL_MAX_HANDSHAKE_FLIGHT at hupper hupper' hindex
  apply UInt16.toNat_inj.mp
  omega

variable {hdr : HmHeader} {ssl : DtlsHandshakeState κ}

/-- What one fragment can do: be refused with an alert, be ignored, or be received into the fragment
    of its message.  No assertion fails. -/
theorem dtls1ProcessFragment_cases (hring : ssl.Ring) (env : HandshakeEnv) {body : Bytes}
    (hbody : body.length = hdr.fragLen) :
    (∃ alert, dtls1ProcessFragment env ssl hdr body = .error (.alert alert)) ∨
    (outsideWindow ssl.handshakeReadSeq hdr.seq = true ∧
      dtls1ProcessFragment env ssl hdr body = .ok ssl) ∨
    ∃ frag frag', outsideWindow ssl.handshakeReadSeq hdr.seq = false ∧
      (ssl.incomingMessages (ringIndex hdr.seq) = some frag ∨
        ssl.incomingMessages (ringIndex hdr.seq) = none ∧
        dtls1HmFragmentNew (env.malloc hdr) hdr = some frag) ∧
      frag.WellFormed ∧ frag.type = hdr.type ∧ frag.seq = hdr.seq ∧ frag.msgLen = hdr.msgLen ∧
      hdr.fragOff + hdr.fragLen ≤ hdr.msgLen ∧ frag.receive hdr body = some frag' ∧
      dtls1ProcessFragment env ssl hdr body =
        .ok (ssl.setIncoming (ringIndex hdr.seq) (some frag')) := by
  unfold dtls1ProcessFragment
  split
  · exact Or.inl ⟨_, rfl⟩
  rename_i hsize
  split
  · exact Or.inl ⟨_, rfl⟩
  split
  · rename_i houtside
    exact Or.inr (Or.inl ⟨houtside, rfl⟩)
  rename_i hwindow
  rw [Bool.not_eq_true] at hwindow
  have hinside : hdr.fragOff + hdr.fragLen ≤ hdr.msgLen := by omega
  unfold dtls1GetIncomingMessage
  rw [if_neg (by rw [hwindow]; decide)]
  cases hslot : ssl.incomingMessages (ringIndex hdr.seq) with
  | some frag =>
    obtain ⟨hinSlot, hwf⟩ := hring.slot _ frag hslot
    -- the slot's number is the only one of the window that belongs there
    have hseq : frag.seq = hdr.seq := hinSlot.eq (outsideWindow_eq_false.mp hwindow)
    dsimp only
    rw [if_neg (not_not.mpr hseq)]
    split
    · rename_i hmismatch
      split at hmismatch
      · exact Or.inl ⟨_, by cases hmismatch; rfl⟩
      · cases hmismatch
    · rename_i frag₀ ssl₀ hok
      split at hok
      · cases hok
      · rename_i hmatch
        rw [not_or, not_not, not_not] at hmatch
        cases hok
        obtain ⟨frag', hreceive, -⟩ := HmFragment.receive_wellFormed hwf hbody
          (by rw [hmatch.2]; exact hinside)
        refine Or.inr (Or.inr ⟨frag, frag', hwindow, Or.inl rfl, hwf, hmatch.1, hseq, hmatch.2,
          hinside, hreceive, ?_⟩)
        rw [if_neg (not_not.mpr hmatch.2), hreceive]
  | none =>
    dsimp only
    cases hnew : dtls1HmFragmentNew (env.malloc hdr) hdr with
    | none => exact Or.inl ⟨_, rfl⟩
    | some frag =>
      obtain ⟨hwf, htype, hseq, hmsgLen⟩ := dtls1HmFragmentNew_spec hnew
      obtain ⟨frag', hreceive, -⟩ := HmFragment.receive_wellFormed hwf hbody
        (by rw [hmsgLen]; exact hinside)
      refine Or.inr (Or.inr ⟨frag, frag', hwindow, Or.inr ⟨rfl, rfl⟩, hwf, htype, hseq, hmsgLen,
        hinside, hreceive, ?_⟩)
      dsimp only
      rw [if_neg (not_not.mpr hmsgLen), hreceive]
      simp [DtlsHandshakeState.setIncoming]

/-- Putting a fragment of the right message in its slot keeps the ring, provided
    a complete one is not replaced. -/
theorem DtlsHandshakeState.Ring.setIncoming (hring : ssl.Ring) {i : Fin SSL_MAX_HANDSHAKE_FLIGHT}
    {frag : HmFragment} (hslot : InSlot ssl.handshakeReadSeq frag.seq i) (hwf : frag.WellFormed)
    (hkeep : ∀ old, ssl.incomingMessages i = some old → old.reassembly = none → frag = old) :
    (ssl.setIncoming i (some frag)).Ring := by
  refine ⟨?_, ?_⟩
  · intro j other hother
    by_cases hj : j = i
    · subst hj
      obtain rfl : frag = other := by
        simpa [DtlsHandshakeState.setIncoming] using hother
      exact ⟨hslot, hwf⟩
    · have hold : ssl.incomingMessages j = some other := by
        simpa [DtlsHandshakeState.setIncoming, hj] using hother
      exact hring.slot j other hold
  · intro hmessage
    have hcomplete := hring.message hmessage
    unfold dtls1IsCurrentMessageComplete at hcomplete ⊢
    by_cases hcurrent : ringIndex ssl.handshakeReadSeq = i
    · -- the current message was complete, so it was put back unchanged
      rw [hcurrent] at hcomplete
      split at hcomplete
      · rename_i old hold
        obtain rfl := hkeep old hold (Option.isNone_iff_eq_none.mp hcomplete)
        simpa [DtlsHandshakeState.setIncoming, hcurrent] using hcomplete
      · cases hcomplete
    · simpa [DtlsHandshakeState.setIncoming, hcurrent] using hcomplete

variable {ssl' : DtlsHandshakeState κ}

/-- **One fragment keeps the ring.** -/
theorem dtls1ProcessFragment_ring (hring : ssl.Ring) {env : HandshakeEnv} {body : Bytes}
    (hbody : body.length = hdr.fragLen) (hok : dtls1ProcessFragment env ssl hdr body = .ok ssl') :
    ssl'.Ring := by
  rcases dtls1ProcessFragment_cases hring env hbody with
    ⟨alert, herror⟩ | ⟨-, hsame⟩ |
      ⟨frag, frag', hwindow, hslot, hwf, -, hseq, hmsgLen, hinside, hreceive, hset⟩
  · rw [herror] at hok
    cases hok
  · rw [hsame] at hok
    cases hok
    exact hring
  · rw [hset] at hok
    cases hok
    rw [← hmsgLen] at hinside
    obtain ⟨frag'', hreceive', hwf', -, hseq', -, hkeep⟩ :=
      HmFragment.receive_wellFormed hwf hbody hinside
    obtain rfl : frag' = frag'' := Option.some.inj (hreceive.symm.trans hreceive')
    refine hring.setIncoming ?_ hwf' ?_
    · rw [hseq', hseq]
      exact outsideWindow_eq_false.mp hwindow
    · intro old hold hcomplete
      rcases hslot with hold' | ⟨hnone, -⟩
      · obtain rfl : frag = old := Option.some.inj (hold'.symm.trans hold)
        exact hkeep hcomplete
      · rw [hnone] at hold
        cases hold

/-- **A slice is received**, if it is in the window, its message is not too long and there is
    memory; in the encrypted epoch it has to be one of the next message. -/
theorem dtls1ProcessFragment_slice {env : HandshakeEnv} {m : HmMessage} {body : Bytes}
    {slot : Option HmFragment} {received : Set Nat}
    (hwindow : outsideWindow ssl.handshakeReadSeq m.seq = false)
    (hepoch : ssl.rEpoch = 1 → m.seq = ssl.handshakeReadSeq)
    (hslot : ssl.incomingMessages (ringIndex m.seq) = slot)
    (hholds : slot = none ∧ received = ∅ ∨ ∃ frag, slot = some frag ∧ frag.Holds m received)
    (hslice : m.Slice hdr body) (hsize : m.body.length ≤ env.maxHandshakeMessageLen)
    (hmalloc : (env.malloc hdr).isSome) :
    ∃ frag, dtls1ProcessFragment env ssl hdr body =
        .ok (ssl.setIncoming (ringIndex m.seq) (some frag)) ∧
      frag.Holds m (received ∪ Set.Ico hdr.fragOff (hdr.fragOff + hdr.fragLen)) := by
  have hinside := hslice.inside
  have hlimits : ¬(hdr.fragOff > hdr.msgLen ∨ hdr.fragOff + hdr.fragLen > hdr.msgLen ∨
      hdr.msgLen > env.maxHandshakeMessageLen) := by
    rw [hslice.msgLen_eq]
    omega
  -- both an empty slot and one that holds a part give a fragment to receive into
  obtain ⟨frag, hget, hfrag⟩ : ∃ frag, dtls1GetIncomingMessage env ssl hdr =
      .ok (frag, ssl.setIncoming (ringIndex m.seq) (some frag)) ∧ frag.Holds m received := by
    unfold dtls1GetIncomingMessage
    rw [hslice.seq_eq, if_neg (by rw [hwindow]; decide), hslot]
    rcases hholds with ⟨rfl, rfl⟩ | ⟨frag, rfl, hfrag⟩
    · obtain ⟨memory, hmemory⟩ := Option.isSome_iff_exists.mp hmalloc
      rw [hmemory]
      have hnew : dtls1HmFragmentNew (some memory) hdr = some _ := rfl
      exact ⟨_, rfl, dtls1HmFragmentNew_holds hslice hnew⟩
    · refine ⟨frag, ?_, hfrag⟩
      dsimp only
      rw [if_neg (not_not.mpr hfrag.seq_eq), if_neg]
      · have hsame : ssl.setIncoming (ringIndex m.seq) (some frag) = ssl := by
          rw [DtlsHandshakeState.setIncoming, ← hslot, Function.update_eq_self]
        rw [hsame]
      · rw [not_or, not_not, not_not, hslice.type_eq, hslice.msgLen_eq]
        exact ⟨hfrag.type_eq, hfrag.msgLen_eq⟩
  obtain ⟨frag', hreceive, hfrag'⟩ := HmFragment.receive_holds hfrag hslice
  have hmsgLen : frag.msgLen = hdr.msgLen := hfrag.msgLen_eq.trans hslice.msgLen_eq.symm
  refine ⟨frag', ?_, hfrag'⟩
  unfold dtls1ProcessFragment
  rw [if_neg hlimits, hslice.seq_eq, if_neg (fun h => h.2 (hepoch h.1)), if_neg (by simp [hwindow]),
    hget]
  dsimp only
  rw [if_neg (not_not.mpr hmsgLen), hreceive]
  simp [DtlsHandshakeState.setIncoming]

def processedFragments (env : HandshakeEnv) :
    Nat → DtlsHandshakeState κ → Bytes → List (HmHeader × Bytes)
  | 0, _, _ => []
  | fuel + 1, ssl, cbs =>
    if cbs = [] then []
    else
      match dtls1ParseFragment cbs with
      | none => []
      | some (msgHdr, body, cbs) =>
        match dtls1ProcessFragment env ssl msgHdr body with
        | .error _ => []
        | .ok ssl => (msgHdr, body) :: processedFragments env fuel ssl cbs

/-- **The loop rule.**  What each body keeps, of the state and the fragments processed, holds after
    the loop, and a failure is one of a body or of the parser. -/
theorem dtls1ProcessFragments_induct (inv : DtlsHandshakeState κ → List (HmHeader × Bytes) → Prop)
    (failed : HandshakeFailure → Prop) (hdecode : failed (.alert SSL_AD_DECODE_ERROR))
    (hstep : ∀ ssl log hdr body ssl', inv ssl log → body.length = hdr.fragLen →
      dtls1ProcessFragment env ssl hdr body = .ok ssl' → inv ssl' (log ++ [(hdr, body)]))
    (hfail : ∀ ssl log hdr body failure, inv ssl log → body.length = hdr.fragLen →
      dtls1ProcessFragment env ssl hdr body = .error failure → failed failure)
    (fuel : Nat) (cbs : Bytes) (ssl : DtlsHandshakeState κ) (log : List (HmHeader × Bytes))
    (hinv : inv ssl log) : inv (dtls1ProcessFragments env fuel ssl cbs).2
        (log ++ processedFragments env fuel ssl cbs) ∧
      ∀ failure, (dtls1ProcessFragments env fuel ssl cbs).1 = some failure → failed failure := by
  induction fuel generalizing ssl cbs log with
  | zero => simpa [dtls1ProcessFragments, processedFragments] using hinv
  | succ fuel ih =>
    unfold dtls1ProcessFragments processedFragments
    by_cases hempty : cbs = []
    · simpa [hempty] using hinv
    rw [if_neg hempty, if_neg hempty]
    cases hparse : dtls1ParseFragment cbs with
    | none => simpa [hdecode] using hinv
    | some parsed =>
      obtain ⟨hdr, body, rest⟩ := parsed
      have hbody := (dtls1ParseFragment_iff.mp hparse).2.1
      dsimp only
      cases hprocess : dtls1ProcessFragment env ssl hdr body with
      | error failure =>
        refine ⟨by simpa using hinv, ?_⟩
        rintro _ ⟨⟩
        exact hfail ssl log hdr body failure hinv hbody hprocess
      | ok ssl' =>
        have hnext := ih rest ssl' _ (hstep ssl log hdr body ssl' hinv hbody hprocess)
        rwa [List.append_assoc] at hnext

/-- The record's length is enough fuel: any larger amount gives the same result. -/
theorem dtls1ProcessFragments_fuel {fuel fuel' : Nat}
    (ssl : DtlsHandshakeState κ) {cbs : Bytes} (hfuel : cbs.length ≤ fuel)
    (hfuel' : cbs.length ≤ fuel') :
    dtls1ProcessFragments env fuel ssl cbs = dtls1ProcessFragments env fuel' ssl cbs := by
  have hnil : ∀ (n : Nat) (ssl : DtlsHandshakeState κ),
      dtls1ProcessFragments env n ssl [] = (none, ssl) := by
    intro n ssl
    cases n <;> simp [dtls1ProcessFragments]
  induction fuel generalizing fuel' ssl cbs with
  | zero =>
    obtain rfl := List.length_eq_zero_iff.mp (Nat.le_zero.mp hfuel)
    rw [hnil, hnil]
  | succ fuel ih =>
    by_cases hempty : cbs = []
    · rw [hempty, hnil, hnil]
    obtain ⟨fuel', rfl⟩ : ∃ n, fuel' = n + 1 := by
      have := List.length_pos_iff.mpr hempty
      exact ⟨fuel' - 1, by omega⟩
    unfold dtls1ProcessFragments
    rw [if_neg hempty, if_neg hempty]
    cases hparse : dtls1ParseFragment cbs with
    | none => rfl
    | some parsed =>
      obtain ⟨hdr, body, rest⟩ := parsed
      obtain ⟨-, -, rfl⟩ := dtls1ParseFragment_iff.mp hparse
      rw [List.length_append, List.length_append, HmHeader.length_encode,
        DTLS1_HM_HEADER_LENGTH] at hfuel hfuel'
      dsimp only
      cases dtls1ProcessFragment env ssl hdr body with
      | error failure => rfl
      | ok ssl' => exact ih ssl' (by omega) (by omega)

theorem dtls1HandleRecord_single {env : HandshakeEnv} {body : Bytes} (hfits : hdr.Fits)
    (hbody : body.length = hdr.fragLen) (hok : dtls1ProcessFragment env ssl hdr body = .ok ssl') :
    dtls1HandleRecord env ssl SSL3_RT_HANDSHAKE (hdr.encode ++ body) = (.success, ssl') := by
  have hparse : dtls1ParseFragment (hdr.encode ++ body) = some (hdr, body, []) :=
    dtls1ParseFragment_iff.mpr ⟨hfits, hbody, by rw [List.append_nil]⟩
  obtain ⟨fuel, hfuel⟩ : ∃ fuel, (hdr.encode ++ body).length = fuel + 2 := by
    rw [List.length_append, HmHeader.length_encode, DTLS1_HM_HEADER_LENGTH]
    exact ⟨10 + body.length, by omega⟩
  have hne : hdr.encode ++ body ≠ [] := by
    rw [← List.length_pos_iff, hfuel]
    exact Nat.succ_pos _
  have hloop : dtls1ProcessFragments env (fuel + 2) ssl (hdr.encode ++ body) = (none, ssl') := by
    rw [dtls1ProcessFragments, if_neg hne, hparse]
    dsimp only
    rw [hok]
    rfl
  unfold dtls1HandleRecord
  rw [if_neg (by decide), if_neg (by decide), if_pos rfl, hfuel, hloop]

theorem dtls1ProcessFragment_no_assertion (hring : ssl.Ring) {env : HandshakeEnv} {body : Bytes}
    (hbody : body.length = hdr.fragLen) :
    dtls1ProcessFragment env ssl hdr body ≠ .error .assertion := by
  rcases dtls1ProcessFragment_cases hring env hbody with
    ⟨alert, herror⟩ | ⟨-, hsame⟩ | ⟨_, _, _, _, _, _, _, _, _, _, hset⟩
  · simp [herror]
  · simp [hsame]
  · simp [hset]

theorem dtls1ProcessFragments_ring (hring : ssl.Ring) (env : HandshakeEnv) (fuel : Nat)
    (cbs : Bytes) : (dtls1ProcessFragments env fuel ssl cbs).2.Ring ∧
      (dtls1ProcessFragments env fuel ssl cbs).1 ≠ some .assertion := by
  obtain ⟨hafter, hfailure⟩ := dtls1ProcessFragments_induct env (fun ssl _ => ssl.Ring)
    (fun failure => failure ≠ .assertion) (by simp)
    (fun _ _ _ _ _ hring hbody hok => dtls1ProcessFragment_ring hring hbody hok)
    (by
      rintro ssl _ hdr body _ hring hbody hfail rfl
      exact dtls1ProcessFragment_no_assertion hring hbody hfail)
    fuel cbs ssl [] hring
  exact ⟨hafter, fun hassert => hfailure _ hassert rfl⟩

/-- Two states with the same ring, counter and `has_message`. -/
structure SameRing (ssl ssl' : DtlsHandshakeState κ) : Prop where
  slots : ssl'.incomingMessages = ssl.incomingMessages
  readSeq : ssl'.handshakeReadSeq = ssl.handshakeReadSeq
  message : ssl'.hasMessage = ssl.hasMessage

variable (hring : ssl.Ring)
include hring

theorem DtlsHandshakeState.Ring.congr (hsame : SameRing ssl ssl') : ssl'.Ring := by
  refine ⟨?_, ?_⟩
  · rw [hsame.slots, hsame.readSeq]
    exact hring.slot
  · unfold dtls1IsCurrentMessageComplete
    rw [hsame.slots, hsame.readSeq, hsame.message]
    exact hring.message

theorem dtls1HandleRecord_ring (env : HandshakeEnv) (type : UInt8) (record : Bytes) :
    (dtls1HandleRecord env ssl type record).2.Ring ∧
      (dtls1HandleRecord env ssl type record).1 ≠ .assertionFailed := by
  obtain ⟨hloop, hassert⟩ := dtls1ProcessFragments_ring hring env record.length record
  unfold dtls1HandleRecord
  split
  · split <;> exact ⟨hring, by simp⟩
  split
  · split
    · exact ⟨hring, by simp⟩
    split
    · exact ⟨hring, by simp⟩
    · exact ⟨hring.congr ⟨rfl, rfl, rfl⟩, by simp⟩
  split
  · split
    · rename_i hresult
      rw [hresult] at hloop
      exact ⟨hloop, by simp⟩
    · rename_i hresult
      rw [hresult] at hloop
      exact ⟨hloop, by simp⟩
    · rename_i hresult
      rw [hresult] at hassert
      exact absurd rfl hassert
  · exact ⟨hring, by simp⟩

theorem dtls1OpenHandshake_ring (env : HandshakeEnv) (packet : Bytes) :
    (dtls1OpenHandshake env ssl packet).2.2.Ring ∧
      (dtls1OpenHandshake env ssl packet).1 ≠ .assertionFailed := by
  unfold dtls1OpenHandshake
  split
  · rename_i type record _ read _
    have hread : ({ ssl with toDtlsReadState := read } : DtlsHandshakeState κ).Ring :=
      hring.congr ⟨rfl, rfl, rfl⟩
    exact dtls1HandleRecord_ring hread env type record
  all_goals exact ⟨hring.congr ⟨rfl, rfl, rfl⟩, by simp⟩

theorem dtls1OpenChangeCipherSpec_ring (env : HandshakeEnv) (packet : Bytes) :
    (dtls1OpenChangeCipherSpec env ssl packet).2.2.Ring ∧
      (dtls1OpenChangeCipherSpec env ssl packet).1 ≠ .assertionFailed := by
  obtain ⟨hopen, hassert⟩ := dtls1OpenHandshake_ring hring env packet
  unfold dtls1OpenChangeCipherSpec
  by_cases hccs : ssl.hasChangeCipherSpec = true
  · simp only [hccs, Bool.not_true, Bool.false_eq_true, if_false, ne_eq, not_true_eq_false, if_true]
    exact ⟨hring.congr ⟨rfl, rfl, rfl⟩, by simp⟩
  · simp only [hccs, Bool.not_false, if_true]
    split_ifs
    · exact ⟨hopen, hassert⟩
    · exact ⟨hopen.congr ⟨rfl, rfl, rfl⟩, by simp⟩
    · exact ⟨hopen, by simp⟩

theorem dtls1GetMessage_ring {msg : SslMessage}
    (hget : dtls1GetMessage ssl = some (msg, ssl')) : ssl'.Ring := by
  unfold dtls1GetMessage at hget
  split at hget
  · rename_i frag hslot
    split at hget
    · rename_i hcomplete
      simp only [Option.some.injEq, Prod.mk.injEq] at hget
      obtain ⟨-, rfl⟩ := hget
      refine ⟨hring.slot, fun _ => ?_⟩
      simp [dtls1IsCurrentMessageComplete, hslot, hcomplete]
    · cases hget
  · cases hget

/-- **Moving on keeps the ring**, also when the counter wraps: at 65535 the
    window holds one number only, and its slot is the one emptied. -/
theorem dtls1NextMessage_ring (hnext : dtls1NextMessage ssl = some ssl') : ssl'.Ring := by
  unfold dtls1NextMessage at hnext
  split_ifs at hnext
  cases hnext
  refine ⟨?_, by simp⟩
  intro i frag hslot
  have hne : i ≠ ringIndex ssl.handshakeReadSeq := by
    rintro rfl
    simp [DtlsHandshakeState.setIncoming] at hslot
  have hold : ssl.incomingMessages i = some frag := by
    simpa [DtlsHandshakeState.setIncoming, hne] using hslot
  obtain ⟨hinSlot, hwf⟩ := hring.slot i frag hold
  have hlower := UInt16.le_iff_toNat_le.mp hinSlot.lower
  have hupper := hinSlot.upper
  have hindex := hinSlot.index
  have hlt : ssl.handshakeReadSeq.toNat < frag.seq.toNat := by
    refine Nat.lt_of_le_of_ne hlower fun heq => hne ?_
    exact Fin.ext (by rw [← hindex, ← heq]; rfl)
  have hsucc : (ssl.handshakeReadSeq + 1).toNat = ssl.handshakeReadSeq.toNat + 1 := by
    have := frag.seq.toNat_lt
    rw [UInt16.toNat_add, UInt16.toNat_one]
    omega
  refine ⟨⟨UInt16.le_iff_toNat_le.mpr ?_, ?_, hindex⟩, hwf⟩
  · dsimp only [DtlsHandshakeState.setIncoming]
    omega
  · dsimp only [DtlsHandshakeState.setIncoming]
    omega

end AwsLc
