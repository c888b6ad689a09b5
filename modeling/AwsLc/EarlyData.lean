import AwsLc.TlsWriteRuns

/-!
# The client's 0-RTT limit (`s3_pkt.cc`)

A ticket allows `ticket_max_early_data` bytes of early data.  `tls_write_app_data` compares the
limit, a 32-bit number that the server chooses, with `early_data_written`, which counts in 16 bits.
-/

namespace AwsLc

open TlsWriteState Option

variable {κ : Type}

/-- A client that is about to send early data under a ticket with the limit `ticketMaxEarlyData`. -/
structure EarlyClient (κ : Type) (ticketMaxEarlyData : UInt32) extends TlsWriteState κ where
  wellFormed : toRecordLayer.WellFormed
  nothing_pending : pendingWrite.size = 0
  nothing_sealed : log = []
  is_client : server = false
  early_handshake : hs = some
    { inEarlyData := true, canEarlyWrite := true, earlyDataWritten := 0, ticketMaxEarlyData }

namespace TlsWriteState

/-- A call of `tls_write_app_data` that is made while `is_early_data_write` holds. -/
def earlyWrite (ssl : TlsWriteState κ) (call : WriteCall) : Option (TlsWriteState κ) :=
  if ssl.isEarlyDataWrite then
    (({ ssl with wbio := call.wbio, allocations := call.allocations }).tlsWriteAppData
      call.input).map Prod.snd
  else none

def sealedLength (ssl : TlsWriteState κ) : Nat :=
  (sealedPlaintext SSL3_RT_APPLICATION_DATA ssl.log).length

/-- The sealed bytes are counted, except for those of the pending record, and together
    they are within the limit. -/
structure WithinBudget (limit : UInt32) (ssl : TlsWriteState κ) : Prop where
  wellFormed : ssl.WellFormed
  counted : ∃ hs, ssl.hs = some hs ∧ hs.ticketMaxEarlyData = limit ∧
    ssl.sealedLength = hs.earlyDataWritten.toNat + ssl.pendingWrite.size ∧
    ssl.sealedLength ≤ limit.toNat

/-- `do_tls_write` seals what it reports or leaves pending beyond the earlier pending write. -/
theorem outcome_accounts {pending pending' : PendingWrite} {fragment : Span} {ret : Int}
    {written : Nat} {plaintext : Bytes}
    (h : RecordLayer.WriteOutcome pending fragment ret written plaintext pending') :
    plaintext.length + pending.size = written + pending'.size ∧
      (plaintext.length = 0 ∨ pending.size = 0 ∧ plaintext.length = fragment.size) := by
  cases h with
  | failed _ => exact ⟨rfl, Or.inl rfl⟩
  | resumed _ _ => exact ⟨Nat.add_comm _ _, Or.inl rfl⟩
  | completed hpending => exact ⟨rfl, Or.inr ⟨hpending, rfl⟩⟩
  | stalled _ hpending =>
    rw [hpending]
    exact ⟨Nat.add_comm _ _, Or.inr ⟨rfl, rfl⟩⟩

variable {limit : UInt32} {ssl : TlsWriteState κ}

theorem advances_sealedLength {layer : RecordLayer κ} {plaintext : Bytes}
    (h : ssl.toRecordLayer.Advances SSL3_RT_APPLICATION_DATA plaintext layer) :
    (sealedPlaintext SSL3_RT_APPLICATION_DATA layer.log).length =
      ssl.sealedLength + plaintext.length := by
  obtain ⟨-, events, hlog, -, hplaintext⟩ := h
  rw [hlog, sealedPlaintext_append, List.length_append, hplaintext]
  rfl

theorem fragment_within_limit {hs : EarlyHandshake} {input fragment : Span}
    (hhs : ssl.hs = some hs) (hopen : ssl.earlyDataExhausted = false)
    (hfragment : fragment = input.take (min (ssl.fragmentLimit true) input.size)) :
    hs.earlyDataWritten.toNat + fragment.size ≤ hs.ticketMaxEarlyData.toNat := by
  rw [earlyDataExhausted, hhs, any_some, decide_eq_false_iff_not] at hopen
  have hlt := UInt32.lt_iff_toNat_lt.mp (UInt32.not_le.mp hopen)
  have hsize : fragment.size ≤ ssl.fragmentLimit true := by
    rw [hfragment]
    show (input.bytes.take _).length ≤ _
    rw [List.length_take]
    omega
  simp only [fragmentLimit, hhs] at hsize
  rw [UInt32.toNat_sub_of_le _ _ (UInt32.le_iff_toNat_le.mpr (Nat.le_of_lt hlt))] at hsize
  rw [UInt16.toNat_toUInt32] at hlt hsize
  omega

theorem WithinBudget.write (h : ssl.WithinBudget limit) (hlimit : limit.toNat < 2 ^ 16)
    (hopen : ssl.earlyDataExhausted = false) {input fragment : Span} {layer : RecordLayer κ}
    {plaintext : Bytes} {ret : Int} {written : Nat}
    (hfragment : fragment = input.take (min (ssl.fragmentLimit true) input.size))
    (hwrote : ssl.toRecordLayer.Wrote SSL3_RT_APPLICATION_DATA fragment ret written plaintext
      layer) :
    (({ ssl with toRecordLayer := layer }).countEarlyData true written).WithinBudget limit := by
  obtain ⟨hs, hhs, hticket, hcounted, hbound⟩ := h.counted
  obtain ⟨haccounts, hsmall⟩ := outcome_accounts hwrote.outcome
  have hsealed := advances_sealedLength hwrote.advances
  have hfits := fragment_within_limit hhs hopen hfragment
  rw [hticket] at hfits
  refine ⟨hwrote.advances.1, { hs with
    earlyDataWritten := hs.earlyDataWritten + UInt16.ofNat written }, ?_, hticket, ?_, ?_⟩
  · show Option.map _ ssl.hs = _
    rw [hhs]
    rfl
  · show (sealedPlaintext SSL3_RT_APPLICATION_DATA layer.log).length = _ + layer.pendingWrite.size
    have hexact : (hs.earlyDataWritten + UInt16.ofNat written).toNat =
        hs.earlyDataWritten.toNat + written := by
      rw [UInt16.toNat_add, UInt16.toNat_ofNat']
      omega
    dsimp only
    rw [hexact, hsealed, hcounted]
    omega
  · show (sealedPlaintext SSL3_RT_APPLICATION_DATA layer.log).length ≤ limit.toNat
    omega

theorem countEarlyData_zero (isEarly : Bool) : ssl.countEarlyData isEarly 0 = ssl := by
  have hzero : ∀ count : UInt16, count + UInt16.ofNat 0 = count := UInt16.add_zero
  simp [countEarlyData]

theorem tlsWriteAppDataLoop_withinBudget (hlimit : limit.toNat < 2 ^ 16) {fuel total : Nat}
    {input : Span} {result : WriteResult} {ssl' : TlsWriteState κ} (h : ssl.WithinBudget limit)
    (hloop : tlsWriteAppDataLoop true fuel ssl total input = some (result, ssl')) :
    ssl'.WithinBudget limit := by
  induction fuel generalizing ssl total input with
  | zero => cases hloop
  | succ fuel ih =>
    obtain ⟨step, hstep, hspec⟩ := writeFragment_spec h.wellFormed true total input
    rw [tlsWriteAppDataLoop, hstep] at hloop
    cases hspec with
    | exhausted _ =>
      cases hloop
      obtain ⟨hs, hhs, hticket, hcounted, hbound⟩ := h.counted
      refine ⟨⟨h.wellFormed.layout, h.wellFormed.offset_le⟩, { hs with canEarlyWrite := false },
        ?_, hticket, hcounted, hbound⟩
      dsimp only
      rw [hhs]
      rfl
    | failed hfragment hopen hret hwrote =>
      cases hloop
      have hwritten := h.write hlimit (hopen rfl) hfragment hwrote
      rw [countEarlyData_zero] at hwritten
      exact ⟨hwritten.wellFormed, hwritten.counted⟩
    | finished hfragment hopen hwrote _ _ =>
      cases hloop
      have hwritten := h.write hlimit (hopen rfl) hfragment hwrote
      exact ⟨hwritten.wellFormed, hwritten.counted⟩
    | advanced hfragment hopen hwrote _ _ =>
      exact ih (h.write hlimit (hopen rfl) hfragment hwrote) hloop

theorem earlyWrite_withinBudget (hlimit : limit.toNat < 2 ^ 16) {call : WriteCall}
    {ssl' : TlsWriteState κ} (h : ssl.WithinBudget limit)
    (hwrite : ssl.earlyWrite call = some ssl') : ssl'.WithinBudget limit := by
  unfold earlyWrite at hwrite
  by_cases hearly : ssl.isEarlyDataWrite = true
  · rw [if_pos hearly] at hwrite
    obtain ⟨⟨result, state⟩, hcall, hstate⟩ := map_eq_some_iff.mp hwrite
    cases hstate
    have hbefore : WithinBudget limit { ssl with
        wbio := call.wbio, allocations := call.allocations } :=
      ⟨⟨h.wellFormed.layout, h.wellFormed.offset_le⟩, h.counted⟩
    unfold tlsWriteAppData at hcall
    split at hcall
    · cases hcall
      exact hbefore
    split at hcall
    · cases hcall
      exact hbefore
    obtain ⟨rest, -, hcall⟩ := bind_eq_some_iff.mp hcall
    have hflag : isEarlyDataWrite { ssl with
        wbio := call.wbio, allocations := call.allocations } = true := hearly
    rw [hflag] at hcall
    exact tlsWriteAppDataLoop_withinBudget hlimit hbefore hcall
  · rw [if_neg hearly] at hwrite
    cases hwrite

end TlsWriteState

variable {limit : UInt32}

theorem EarlyClient.withinBudget (client : EarlyClient κ limit) :
    client.toTlsWriteState.WithinBudget limit := by
  have hnone : client.toTlsWriteState.sealedLength = 0 := by
    rw [sealedLength, client.nothing_sealed]
    rfl
  refine ⟨client.wellFormed, _, client.early_handshake, rfl, ?_, ?_⟩
  · rw [hnone, client.nothing_pending]
    rfl
  · rw [hnone]
    exact Nat.zero_le _

def copyingTls13Aead : SslAeadContext Unit :=
  { copyingAead true with
    version := TLS1_3_VERSION
    omitLengthInAd := true
    adIsHeader := true
    split_len := fun _ h => by cases h }

def sentLayer (seq : SequenceNumber) (log : List WriteEvent) : RecordLayer Unit where
  aeadWriteCtx := copyingTls13Aead
  writeSequence := seq
  cbcRecordSplitting := false
  writeBuffer := .empty zeroInline
  pendingWrite := .none
  pendingWriteType := 0
  pendingFlight := none
  pendingFlightOffset := 0
  pendingHsData := none
  keyUpdatePending := SSL_KEY_UPDATE_NONE
  rwstate := 0
  acceptMovingWriteBuffer := false
  wbio := some []
  allocations := []
  log := log

/-- A client that has counted `written` bytes of early data, all of them sent. -/
def earlyClientState (limit : UInt32) (written : UInt16) (seq : SequenceNumber)
    (log : List WriteEvent) : TlsWriteState Unit where
  toRecordLayer := sentLayer seq log
  unreportedBytesWritten := 0
  writeShutdown := .none
  enablePartialWrite := false
  maxSendFragment := .largest
  server := false
  hs := some { inEarlyData := true, canEarlyWrite := true, earlyDataWritten := written
               ticketMaxEarlyData := limit }

def oneByteWrite : WriteCall :=
  { input := ⟨0x1000, [0]⟩, wbio := some [7], allocations := [some ⟨0, fun _ => 0⟩] }

def oneByteRecord : Bytes := [23, 3, 3, 0, 2, 0, 23]

def oneByteLog (log : List WriteEvent) : List WriteEvent :=
  log ++ [.sealed SSL3_RT_APPLICATION_DATA [0] oneByteRecord] ++ [.accepted oneByteRecord]

variable {seq : SequenceNumber}

theorem tlsSealRecord_oneByte (hseq : (seq.update 0).1 = true) (log : List WriteEvent) :
    tlsSealRecord (sentLayer seq log).toSealState 7 SSL3_RT_APPLICATION_DATA [0] =
      (some oneByteRecord, (sentLayer (seq.update 0).2 log).toSealState) := by
  have hheader : tlsRecordHeader copyingTls13Aead SSL3_RT_APPLICATION_DATA 2 =
      [23, 3, 3, 0, 2] := by decide
  have hcall : doSealRecordCall (sentLayer seq log).toSealState SSL3_RT_APPLICATION_DATA [0] =
      some (tlsRecordHeader copyingTls13Aead SSL3_RT_APPLICATION_DATA 2,
        some ([], [0], [23]), copyingTls13Aead) := rfl
  show doSealRecord (sentLayer seq log).toSealState SSL3_RT_APPLICATION_DATA [0] = _
  unfold doSealRecord
  rw [hcall, hheader]
  show (if (seq.update 0).1 = true then _ else _) = _
  rw [if_pos hseq]
  rfl

/-- The record layer when a call of `oneByteWrite` begins. -/
def readyLayer (seq : SequenceNumber) (log : List WriteEvent) : RecordLayer Unit :=
  { sentLayer seq log with wbio := oneByteWrite.wbio, allocations := oneByteWrite.allocations }

def grownBuffer : SslBuffer := (SslBuffer.empty zeroInline).moveHeap 5 7 ⟨0, fun _ => 0⟩

def filledBuffer : SslBuffer :=
  { grownBuffer.store 3 oneByteRecord with size := 7 }

theorem doTlsWrite_oneByte (hseq : (seq.update 0).1 = true) (log : List WriteEvent) :
    (readyLayer seq log).doTlsWrite SSL3_RT_APPLICATION_DATA oneByteWrite.input =
      some (1, 1, sentLayer (seq.update 0).2 (oneByteLog log)) := by
  have hgood : (readyLayer seq log).badWriteRetry SSL3_RT_APPLICATION_DATA oneByteWrite.input =
      false := rfl
  have hflush : (readyLayer seq log).sslWriteBufferFlush = some (1, readyLayer seq log) := rfl
  have hhs : (readyLayer seq log).tlsFlushPendingHsData = (true, readyLayer seq log) := rfl
  have hflight : (readyLayer seq log).remainingFlight = some [] := rfl
  have hwrite : (readyLayer seq log).writeRecord SSL3_RT_APPLICATION_DATA oneByteWrite.input [] =
      some (1, 1, sentLayer (seq.update 0).2 (oneByteLog log)) := by
    have hmaxOut : ([] : Bytes).length + (if oneByteWrite.input.bytes = [] then 0 else
        oneByteWrite.input.size + sslMaxSealOverhead (readyLayer seq log).toSealState) = 7 := rfl
    have hseal : ({ readyLayer seq log with
        allocations := [], writeBuffer := grownBuffer }).sealToWriteBuffer
        SSL3_RT_APPLICATION_DATA [0] = some (true, { readyLayer (seq.update 0).2 log with
          allocations := []
          writeBuffer := filledBuffer
          log := log ++ [.sealed SSL3_RT_APPLICATION_DATA [0] oneByteRecord] }) := by
      unfold RecordLayer.sealToWriteBuffer
      rw [if_neg (by decide)]
      have hrecord := tlsSealRecord_oneByte hseq log
      change tlsSealRecord (readyLayer seq log).toSealState (grownBuffer.cap - grownBuffer.size)
        SSL3_RT_APPLICATION_DATA [0] = _ at hrecord
      dsimp only
      rw [hrecord]
      rfl
    have hensure : (readyLayer seq log).writeBuffer.ensureCap (UInt64.ofNat (([] : Bytes).length +
        sslSealAlignPrefixLen (readyLayer seq log).toSealState)) 7
        ((readyLayer seq log).allocations.headD none) = (true, grownBuffer) := rfl
    have hsend : ({ readyLayer (seq.update 0).2 log with
        allocations := []
        writeBuffer := filledBuffer
        log := log ++ [WriteEvent.sealed SSL3_RT_APPLICATION_DATA [0] oneByteRecord]
        keyUpdatePending := SSL_KEY_UPDATE_NONE }).sslWriteBufferFlush =
        some (1, sentLayer (seq.update 0).2 (oneByteLog log)) := rfl
    unfold RecordLayer.writeRecord
    rw [hmaxOut]
    dsimp only [RecordLayer.malloc]
    rw [if_neg (by decide), hensure]
    simp only [Bool.true_eq_false, if_false, RecordLayer.copyPendingFlight, if_true,
      bind_eq_bind, bind_some]
    refine bind_of_eq_some hseal ?_
    simp only [Bool.true_eq_false, if_false]
    exact bind_of_eq_some hsend rfl
  unfold RecordLayer.doTlsWrite
  rw [hgood, hflush]
  simp only [Bool.false_eq_true, if_false, bind_eq_bind, bind_some]
  rw [if_neg (by decide), if_neg (by show ¬ (0 ≠ 0); decide),
    if_neg (by show ¬ (1 > 16384 ∨ 0 > 0); decide), hhs]
  simp only [Bool.true_eq_false, if_false, hflight, bind_some]
  exact hwrite

/-- The client when a call of `oneByteWrite` begins. -/
def readyClient (limit : UInt32) (written : UInt16) (seq : SequenceNumber)
    (log : List WriteEvent) : TlsWriteState Unit :=
  { earlyClientState limit written seq log with toRecordLayer := readyLayer seq log }

variable (hlimit : 2 ^ 16 ≤ limit.toNat)
include hlimit

/-- The counter never reaches a limit that does not fit it. -/
theorem readyClient_open (written : UInt16) (seq : SequenceNumber) (log : List WriteEvent) :
    (readyClient limit written seq log).earlyDataExhausted = false := by
  show decide (written.toUInt32 ≥ limit) = false
  rw [decide_eq_false_iff_not]
  intro hreached
  have hle := UInt32.le_iff_toNat_le.mp hreached
  have hlt := written.toNat_lt
  rw [UInt16.toNat_toUInt32] at hle
  omega

theorem writeFragment_oneByte (written : UInt16)
    (hseq : (seq.update 0).1 = true) (log : List WriteEvent) :
    writeFragment true (readyClient limit written seq log) 0 oneByteWrite.input =
      some (.returned ⟨1, 1, false⟩
        (earlyClientState limit (written + 1) (seq.update 0).2 (oneByteLog log))) := by
  have hopen := readyClient_open hlimit written seq log
  have hpos := @fragmentLimit_pos _ _ true (fun _ => hopen)
  have hone : min ((readyClient limit written seq log).fragmentLimit true)
      oneByteWrite.input.size = 1 := Nat.min_eq_right hpos
  unfold writeFragment
  rw [hopen, hone]
  simp only [Bool.and_false, Bool.false_eq_true, if_false]
  exact bind_of_eq_some (doTlsWrite_oneByte hseq log) rfl

theorem earlyWrite_oneByte (written : UInt16)
    (hseq : (seq.update 0).1 = true) (log : List WriteEvent) :
    (earlyClientState limit written seq log).earlyWrite oneByteWrite =
      some (earlyClientState limit (written + 1) (seq.update 0).2 (oneByteLog log)) := by
  have hcall : (readyClient limit written seq log).tlsWriteAppData oneByteWrite.input =
      some (⟨1, 1, false⟩,
        earlyClientState limit (written + 1) (seq.update 0).2 (oneByteLog log)) := by
    exact bind_of_eq_some (writeFragment_oneByte hlimit written hseq log) rfl
  exact congrArg (Option.map Prod.snd) hcall

theorem earlyWrite_oneByte_run (count : Nat) (hcount : count < 2 ^ 64) :
    ∃ seq log, seq.number 0 = count ∧
      (sealedPlaintext SSL3_RT_APPLICATION_DATA log).length = count ∧
      Runs.run earlyWrite (earlyClientState limit 0 SequenceNumber.zeroed [])
        (List.replicate count oneByteWrite) =
          some (earlyClientState limit (UInt16.ofNat count) seq log) := by
  induction count with
  | zero => exact ⟨SequenceNumber.zeroed, [], by decide, rfl, rfl⟩
  | succ count ih =>
    obtain ⟨seq, log, hnumber, hsealed, hrun⟩ := ih (by omega)
    rcases seq.number_update (Nat.zero_le 8) with ⟨hok, hnext⟩ | ⟨-, -, hfull⟩
    · refine ⟨(seq.update 0).2, oneByteLog log, by omega, ?_, ?_⟩
      · simp only [oneByteLog, sealedPlaintext_append, List.length_append, hsealed]
        rfl
      · rw [List.replicate_succ', Runs.run_append, hrun, bind_some, Runs.run_singleton,
          earlyWrite_oneByte hlimit _ hok, UInt16.ofNat_add]
        rfl
    · exfalso
      norm_num at hfull
      omega

omit hlimit

def copyingEarlyClient (limit : UInt32) : EarlyClient Unit limit where
  toTlsWriteState := earlyClientState limit 0 SequenceNumber.zeroed []
  wellFormed := ⟨SslBuffer.empty_layout _, Nat.zero_le _⟩
  nothing_pending := rfl
  nothing_sealed := rfl
  is_client := rfl
  early_handshake := rfl

/-- **The 0-RTT limit.**  In every run of writes that are made as early data the client
    seals at most `ticket_max_early_data` bytes, if and only if that limit is below
    `2 ^ 16`, the range of the counter `early_data_written`. -/
theorem early_data_limit_iff (limit : UInt32) :
    (∀ (κ : Type) (client : EarlyClient κ limit) (calls : List WriteCall) (final : TlsWriteState κ),
      Runs.run earlyWrite client.toTlsWriteState calls = some final →
      final.sealedLength ≤ limit.toNat) ↔ limit.toNat < 2 ^ 16 := by
  constructor
  · intro hbounded
    by_contra hlimit
    have hlimit' := Nat.le_of_not_lt hlimit
    have hrange := limit.toNat_lt
    obtain ⟨seq, log, -, hsealed, hrun⟩ :=
      earlyWrite_oneByte_run hlimit' (limit.toNat + 1) (by omega)
    have hle := hbounded Unit (copyingEarlyClient limit) _ _ hrun
    rw [sealedLength] at hle
    change (sealedPlaintext SSL3_RT_APPLICATION_DATA log).length ≤ _ at hle
    omega
  · intro hlimit κ client calls final hrun
    have hfinal := Runs.run_induct (TlsWriteState.WithinBudget limit) (fun _ => True)
      (fun ssl call ssl' h _ hwrite => earlyWrite_withinBudget hlimit h hwrite)
      (fun _ _ => trivial) client.withinBudget hrun
    obtain ⟨hs, -, -, -, hbound⟩ := hfinal.counted
    exact hbound

/-- Under a ticket for 65536 bytes of early data, 65537 bytes are sealed. -/
theorem early_data_limit_exceeded : ∃ (calls : List WriteCall) (final : TlsWriteState Unit),
      Runs.run earlyWrite (copyingEarlyClient 65536).toTlsWriteState calls = some final ∧
      final.sealedLength = 65537 := by
  obtain ⟨seq, log, -, hsealed, hrun⟩ :=
    @earlyWrite_oneByte_run 65536 (by decide) 65537 (by norm_num)
  exact ⟨_, _, hrun, hsealed⟩

end AwsLc
