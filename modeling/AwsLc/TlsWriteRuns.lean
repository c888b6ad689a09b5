import AwsLc.Runs
import AwsLc.TlsWrite

/-!
# Writing application data (`s3_pkt.cc`)

`tls_write_app_data` cuts the caller's data into records.  What was already sealed of it is
remembered in two numbers: `unreported_bytes_written`, the size of the records that were sent, and
the size of the record that is pending.
-/

namespace AwsLc

open List Option

variable {κ : Type}

/-! ### The state -/

/-- The fields of `SSL_HANDSHAKE` that a write uses, with the limit of the offered session. -/
structure EarlyHandshake where
  inEarlyData : Bool
  canEarlyWrite : Bool
  earlyDataWritten : UInt16
  /-- `early_session->ticket_max_early_data` -/
  ticketMaxEarlyData : UInt32

def MIN_SAFE_FRAGMENT_SIZE : Nat := 512

/-- `max_send_fragment`, which the setters keep in range. -/
structure MaxSendFragment where
  size : Nat
  size_ge : MIN_SAFE_FRAGMENT_SIZE ≤ size
  size_le : size ≤ SSL3_RT_MAX_PLAIN_LENGTH

def MaxSendFragment.largest : MaxSendFragment :=
  ⟨SSL3_RT_MAX_PLAIN_LENGTH, by decide, Nat.le_refl _⟩

structure TlsWriteState (κ : Type) extends RecordLayer κ where
  unreportedBytesWritten : Nat
  writeShutdown : SslShutdown
  /-- `SSL_MODE_ENABLE_PARTIAL_WRITE` is set -/
  enablePartialWrite : Bool
  maxSendFragment : MaxSendFragment
  server : Bool
  hs : Option EarlyHandshake

/-- The return value of `tls_write_app_data` and its output parameters. -/
structure WriteResult where
  ret : Int
  bytesWritten : Nat
  needsHandshake : Bool
deriving DecidableEq, Repr

variable (ssl : TlsWriteState κ)

namespace TlsWriteState

def isEarlyDataWrite : Bool :=
  !ssl.server && ssl.hs.any fun hs => hs.inEarlyData && hs.canEarlyWrite

def earlyDataExhausted : Bool :=
  ssl.hs.any fun hs => hs.earlyDataWritten.toUInt32 ≥ hs.ticketMaxEarlyData

variable (isEarly : Bool)

/-- The local `max_send_fragment`. -/
def fragmentLimit : Nat :=
  match isEarly, ssl.hs with
  | true, some hs =>
    min ssl.maxSendFragment.size (hs.ticketMaxEarlyData - hs.earlyDataWritten.toUInt32).toNat
  | _, _ => ssl.maxSendFragment.size

/-- `early_data_written += bytes_written`, in 16 bits. -/
def countEarlyData (bytesWritten : Nat) : TlsWriteState κ :=
  { ssl with
    hs := if isEarly then
      ssl.hs.map fun hs =>
        { hs with earlyDataWritten := hs.earlyDataWritten + UInt16.ofNat bytesWritten }
      else ssl.hs }

inductive LoopStep (κ : Type) where
  | returned (result : WriteResult) (ssl : TlsWriteState κ)
  | continued (ssl : TlsWriteState κ) (totalBytesWritten : Nat) (input : Span)

/-- The body of the loop of `tls_write_app_data`. -/
def writeFragment (ssl : TlsWriteState κ) (totalBytesWritten : Nat)
    (input : Span) : Option (LoopStep κ) := do
  if isEarly && ssl.earlyDataExhausted then
    return .returned ⟨-1, 0, true⟩ { ssl with
      unreportedBytesWritten := totalBytesWritten
      hs := ssl.hs.map fun hs => { hs with canEarlyWrite := false } }
  let toWrite := min (ssl.fragmentLimit isEarly) input.size
  let (ret, bytesWritten, layer) ←
    ssl.toRecordLayer.doTlsWrite SSL3_RT_APPLICATION_DATA (input.take toWrite)
  let ssl := { ssl with toRecordLayer := layer }
  if ret ≤ 0 then
    return .returned ⟨ret, 0, false⟩ { ssl with unreportedBytesWritten := totalBytesWritten }
  let rest ← input.subspan bytesWritten
  let ssl := ssl.countEarlyData isEarly bytesWritten
  if rest.bytes = [] ∨ ssl.enablePartialWrite then
    return .returned ⟨1, totalBytesWritten + bytesWritten, false⟩
      { ssl with unreportedBytesWritten := 0 }
  return .continued ssl (totalBytesWritten + bytesWritten) rest

/-- The loop of `tls_write_app_data`.  Every iteration that continues takes a byte off
    the input, so that the fuel bounds the length of the input. -/
def tlsWriteAppDataLoop (isEarly : Bool) : Nat → TlsWriteState κ → Nat → Span →
    Option (WriteResult × TlsWriteState κ)
  | 0, _, _, _ => none
  | fuel + 1, ssl, totalBytesWritten, input => do
    match ← writeFragment isEarly ssl totalBytesWritten input with
    | .returned result ssl => return (result, ssl)
    | .continued ssl totalBytesWritten input =>
      tlsWriteAppDataLoop isEarly fuel ssl totalBytesWritten input

def tlsWriteAppData (input : Span) :
    Option (WriteResult × TlsWriteState κ) := do
  if ssl.writeShutdown ≠ .none then return (⟨-1, 0, false⟩, ssl)
  if input.size < ssl.unreportedBytesWritten then return (⟨-1, 0, false⟩, ssl)
  let rest ← input.subspan ssl.unreportedBytesWritten
  tlsWriteAppDataLoop ssl.isEarlyDataWrite (rest.size + 1) ssl ssl.unreportedBytesWritten rest

/-! ### One iteration -/

/-- What an iteration can come to.  In each case but the first a record was written with
    one of the outcomes of `do_tls_write`. -/
inductive FragmentStep (isEarly : Bool) (ssl : TlsWriteState κ) (totalBytesWritten : Nat)
    (input : Span) : LoopStep κ → Prop where
  | exhausted : isEarly = true →
      FragmentStep isEarly ssl totalBytesWritten input (.returned ⟨-1, 0, true⟩ { ssl with
        unreportedBytesWritten := totalBytesWritten
        hs := ssl.hs.map fun hs => { hs with canEarlyWrite := false } })
  | failed {ret : Int} {layer : RecordLayer κ} {plaintext : Bytes} {fragment : Span} :
      fragment = input.take (min (ssl.fragmentLimit isEarly) input.size) →
      (isEarly = true → ssl.earlyDataExhausted = false) →
      ret ≤ 0 →
      ssl.toRecordLayer.Wrote SSL3_RT_APPLICATION_DATA fragment ret 0 plaintext layer →
      FragmentStep isEarly ssl totalBytesWritten input (.returned ⟨ret, 0, false⟩
        { ssl with toRecordLayer := layer, unreportedBytesWritten := totalBytesWritten })
  | finished {written : Nat} {layer : RecordLayer κ} {plaintext : Bytes} {fragment : Span} :
      fragment = input.take (min (ssl.fragmentLimit isEarly) input.size) →
      (isEarly = true → ssl.earlyDataExhausted = false) →
      ssl.toRecordLayer.Wrote SSL3_RT_APPLICATION_DATA fragment 1 written plaintext layer →
      written ≤ input.size → (written = input.size ∨ ssl.enablePartialWrite = true) →
      FragmentStep isEarly ssl totalBytesWritten input
        (.returned ⟨1, totalBytesWritten + written, false⟩
          { ({ ssl with toRecordLayer := layer }).countEarlyData isEarly written with
            unreportedBytesWritten := 0 })
  | advanced {written : Nat} {layer : RecordLayer κ} {plaintext : Bytes} {fragment : Span} :
      fragment = input.take (min (ssl.fragmentLimit isEarly) input.size) →
      (isEarly = true → ssl.earlyDataExhausted = false) →
      ssl.toRecordLayer.Wrote SSL3_RT_APPLICATION_DATA fragment 1 written plaintext layer →
      0 < written → written < input.size →
      FragmentStep isEarly ssl totalBytesWritten input
        (.continued (({ ssl with toRecordLayer := layer }).countEarlyData isEarly written)
          (totalBytesWritten + written)
          ⟨input.data + UInt64.ofNat written, input.bytes.drop written⟩)

theorem fragmentLimit_pos {ssl : TlsWriteState κ} {isEarly : Bool}
    (h : isEarly = true → ssl.earlyDataExhausted = false) : 0 < ssl.fragmentLimit isEarly := by
  have hmin := ssl.maxSendFragment.size_ge
  have hsafe : 0 < MIN_SAFE_FRAGMENT_SIZE := by decide
  unfold fragmentLimit
  split
  · rename_i hs hhs
    have hopen := h rfl
    rw [earlyDataExhausted, hhs, any_some, decide_eq_false_iff_not] at hopen
    have hlt := UInt32.lt_iff_toNat_lt.mp (UInt32.not_le.mp hopen)
    rw [UInt32.toNat_sub_of_le _ _ (UInt32.le_iff_toNat_le.mpr (Nat.le_of_lt hlt))]
    omega
  · omega

theorem writeFragment_spec {ssl : TlsWriteState κ} (hwf : ssl.WellFormed) (isEarly : Bool)
    (totalBytesWritten : Nat) (input : Span) :
    ∃ step, writeFragment isEarly ssl totalBytesWritten input = some step ∧
      FragmentStep isEarly ssl totalBytesWritten input step := by
  unfold writeFragment
  by_cases hexhausted : (isEarly && ssl.earlyDataExhausted) = true
  · rw [if_pos hexhausted]
    rw [Bool.and_eq_true] at hexhausted
    exact ⟨_, rfl, .exhausted hexhausted.1⟩
  rw [if_neg hexhausted]
  have hopen : isEarly = true → ssl.earlyDataExhausted = false := by
    intro hearly
    rw [hearly, Bool.true_and, Bool.not_eq_true] at hexhausted
    exact hexhausted
  dsimp only
  generalize hfragment : input.take (min (ssl.fragmentLimit isEarly) input.size) = fragment
  have hsize : fragment.size = min (ssl.fragmentLimit isEarly) input.size := by
    rw [← hfragment]
    show (input.bytes.take _).length = _
    rw [length_take]
    exact Nat.min_eq_left (Nat.min_le_right _ _)
  obtain ⟨ret, written, layer, plaintext, hwrite, hwrote⟩ :=
    RecordLayer.doTlsWrite_spec SSL3_RT_APPLICATION_DATA (by decide) hwf fragment
  rw [hwrite]
  simp only [bind_eq_bind, bind_some]
  by_cases hret : ret ≤ 0
  · rw [if_pos hret]
    cases hwrote.outcome.written_of_failed hret
    exact ⟨_, rfl, .failed hfragment.symm hopen hret hwrote⟩
  rw [if_neg hret]
  obtain ⟨rfl, hle, hpos⟩ := hwrote.outcome.written_of_succeeded hret
  have hlimit := fragmentLimit_pos hopen
  rw [Span.subspan, if_neg (by omega), bind_some]
  dsimp only
  by_cases hlast : input.bytes.drop written = [] ∨ ssl.enablePartialWrite = true
  · have hdone : written = input.size ∨ ssl.enablePartialWrite = true := by
      refine hlast.imp_left fun hnil => ?_
      have hlength : input.size ≤ written := drop_eq_nil_iff.mp hnil
      omega
    refine ⟨_, if_pos hlast, ?_⟩
    exact .finished hfragment.symm hopen hwrote (by omega) hdone
  · have hmore : written < input.size := by
      by_contra hall
      exact hlast (Or.inl (drop_eq_nil_iff.mpr (Nat.le_of_not_lt hall)))
    refine ⟨_, if_neg hlast, ?_⟩
    exact .advanced hfragment.symm hopen hwrote (hpos (by omega)) hmore

/-- Writing the fragment of `data` that starts at `total` seals on from where the earlier
    records and the pending one end. -/
theorem outcome_seals {data : Bytes} {total limit : Nat} {input fragment : Span}
    {pending pending' : PendingWrite} {ret : Int} {written : Nat} {plaintext : Bytes}
    (hinput : input.bytes = data.drop total) (hfragment : fragment = input.take limit)
    (hle : total + pending.size ≤ data.length)
    (h : RecordLayer.WriteOutcome pending fragment ret written plaintext pending') :
    data.take (total + pending.size) ++ plaintext = data.take (total + written + pending'.size) ∧
      total + written + pending'.size ≤ data.length ∧ (¬ ret ≤ 0 → pending'.size = 0) := by
  have hbytes : fragment.bytes = (data.drop total).take limit := by rw [hfragment, ← hinput]; rfl
  have hsize : fragment.size = min limit (data.length - total) := by
    rw [Span.size, hbytes, length_take, length_drop]
  have hextend : data.take total ++ fragment.bytes = data.take (total + fragment.size) := by
    rw [take_add, hbytes, hsize, ← length_drop, ← take_eq_take_min]
  cases h with
  | failed hret => exact ⟨by rw [append_nil, Nat.add_zero], by omega, fun h => absurd hret h⟩
  | resumed _ _ =>
    have hnone : PendingWrite.none.size = 0 := rfl
    rw [hnone, append_nil]
    exact ⟨rfl, by omega, fun _ => rfl⟩
  | completed hpending =>
    rw [hpending]
    exact ⟨hextend, by omega, fun _ => rfl⟩
  | stalled hret hpending =>
    rw [hpending]
    exact ⟨hextend, by dsimp only; omega, fun h => absurd hret h⟩

/-- How a call with `data` ended after `sealedUpTo` bytes of it have been sealed. -/
inductive CallOutcome (data : Bytes) (sealedUpTo : Nat) (result : WriteResult)
    (ssl : TlsWriteState κ) : Prop where
  | failed : result.ret ≤ 0 →
      sealedUpTo = ssl.unreportedBytesWritten + ssl.pendingWrite.size →
      CallOutcome data sealedUpTo result ssl
  | succeeded : result.ret = 1 → result.bytesWritten = sealedUpTo →
      ssl.unreportedBytesWritten = 0 → ssl.pendingWrite.size = 0 →
      (ssl.enablePartialWrite = false → sealedUpTo = data.length) →
      CallOutcome data sealedUpTo result ssl

/-- The loop returns, and seals a stretch of `data` that starts where the earlier records
    and the pending one end. -/
theorem tlsWriteAppDataLoop_spec (data : Bytes) {fuel : Nat}
    {ssl : TlsWriteState κ} {total : Nat} {input : Span} (hwf : ssl.WellFormed)
    (hinput : input.bytes = data.drop total) (hle : total + ssl.pendingWrite.size ≤ data.length)
    (hfuel : input.size < fuel) : ∃ result ssl' plaintext sealedUpTo,
      tlsWriteAppDataLoop isEarly fuel ssl total input = some (result, ssl') ∧
      ssl.toRecordLayer.Advances SSL3_RT_APPLICATION_DATA plaintext ssl'.toRecordLayer ∧
      data.take (total + ssl.pendingWrite.size) ++ plaintext = data.take sealedUpTo ∧
      sealedUpTo ≤ data.length ∧ ssl'.enablePartialWrite = ssl.enablePartialWrite ∧
      CallOutcome data sealedUpTo result ssl' := by
  induction fuel generalizing ssl total input with
  | zero => exact absurd hfuel (Nat.not_lt_zero _)
  | succ fuel ih =>
    obtain ⟨step, hstep, hspec⟩ := writeFragment_spec hwf isEarly total input
    rw [tlsWriteAppDataLoop, hstep]
    have hsize : input.size = data.length - total := by
      rw [Span.size, hinput, length_drop]
    cases hspec with
    | exhausted _ =>
      refine ⟨_, _, [], total + ssl.pendingWrite.size, rfl, ?_, ?_, hle, rfl, ?_⟩
      · exact RecordLayer.Advances.quiet hwf rfl rfl
      · rw [append_nil]
      · exact .failed (by decide) rfl
    | failed hfragment _ hret hwrote =>
      obtain ⟨hseals, hwithin, -⟩ := outcome_seals hinput hfragment hle hwrote.outcome
      exact ⟨_, _, _, _, rfl, hwrote.advances, hseals, hwithin, rfl, .failed hret rfl⟩
    | finished hfragment _ hwrote hwritten hlast =>
      obtain ⟨hseals, hwithin, hpending⟩ := outcome_seals hinput hfragment hle hwrote.outcome
      have hzero := hpending (by decide)
      rw [hzero, Nat.add_zero] at hseals hwithin
      refine ⟨_, _, _, _, rfl, hwrote.advances, hseals, hwithin, rfl, ?_⟩
      refine .succeeded rfl rfl rfl hzero fun hwhole => ?_
      rcases hlast with hall | hpartial
      · omega
      · exact absurd (hwhole.symm.trans hpartial) (by decide)
    | @advanced written layer plaintext fragment hfragment _ hwrote hpos hmore =>
      obtain ⟨hseals, hwithin, hpending⟩ := outcome_seals hinput hfragment hle hwrote.outcome
      have hrest : input.bytes.drop written = data.drop (total + written) := by
        rw [hinput, drop_drop]
      have hshorter : (input.bytes.drop written).length < fuel := by
        rw [length_drop]
        rw [Span.size] at hmore hfuel
        omega
      obtain ⟨result, ssl', later, sealedUpTo, hloop, hlater, hmoreSeals, hbound, hsame, hcall⟩ :=
        @ih (({ ssl with toRecordLayer := layer }).countEarlyData isEarly written) _
          ⟨input.data + UInt64.ofNat written, input.bytes.drop written⟩
          hwrote.advances.1 hrest hwithin hshorter
      refine ⟨result, ssl', plaintext ++ later, sealedUpTo, hloop, hwrote.advances.trans hlater, ?_,
        hbound, hsame, hcall⟩
      rw [← append_assoc, hseals]
      exact hmoreSeals

theorem tlsWriteAppData_spec (input : Span) (hwf : ssl.WellFormed)
    (hle : ssl.unreportedBytesWritten + ssl.pendingWrite.size ≤ input.bytes.length) :
    ∃ result ssl' plaintext sealedUpTo, ssl.tlsWriteAppData input = some (result, ssl') ∧
      ssl.toRecordLayer.Advances SSL3_RT_APPLICATION_DATA plaintext ssl'.toRecordLayer ∧
      input.bytes.take (ssl.unreportedBytesWritten + ssl.pendingWrite.size) ++ plaintext =
        input.bytes.take sealedUpTo ∧
      sealedUpTo ≤ input.bytes.length ∧ ssl'.enablePartialWrite = ssl.enablePartialWrite ∧
      CallOutcome input.bytes sealedUpTo result ssl' := by
  unfold tlsWriteAppData
  by_cases hshutdown : ssl.writeShutdown ≠ .none
  · rw [if_pos hshutdown]
    exact ⟨_, ssl, [], _, rfl, RecordLayer.Advances.quiet hwf rfl rfl, append_nil _, hle, rfl,
      .failed (by decide) rfl⟩
  rw [if_neg hshutdown, if_neg (by rw [Span.size]; omega), Span.subspan,
    if_neg (by rw [Span.size]; omega)]
  simp only [bind_eq_bind, bind_some]
  exact tlsWriteAppDataLoop_spec _ _ hwf rfl hle (Nat.lt_succ_self _)

end TlsWriteState

/-! ### Runs of calls -/

structure IdleConnection (κ : Type) extends TlsWriteState κ where
  wellFormed : toRecordLayer.WellFormed
  nothing_unreported : unreportedBytesWritten = 0
  nothing_pending : pendingWrite.size = 0

/-- A call of `tls_write_app_data`: the data, and what transport and allocator will answer. -/
structure WriteCall where
  input : Span
  wbio : Option (List Int)
  allocations : List (Option Allocation)

structure WriteHistory (κ : Type) where
  ssl : TlsWriteState κ
  /-- the sum of the reported `*out_bytes_written` -/
  bytesWritten : Nat
  /-- the data that was reported as written -/
  reported : Bytes
  /-- the data of the calls that succeeded -/
  offered : Bytes
  /-- the data of the last call, if it failed -/
  outstanding : Bytes

namespace WriteHistory

def start : WriteHistory κ where
  ssl := { ssl with log := [] }
  bytesWritten := 0
  reported := []
  offered := []
  outstanding := []

def call (history : WriteHistory κ) (call : WriteCall) : Option (WriteHistory κ) := do
  let (result, ssl) ← ({ history.ssl with
    wbio := call.wbio, allocations := call.allocations }).tlsWriteAppData call.input
  if result.ret ≤ 0 then
    return { history with ssl, outstanding := call.input.bytes }
  return {
    ssl
    bytesWritten := history.bytesWritten + result.bytesWritten
    reported := history.reported ++ call.input.bytes.take result.bytesWritten
    offered := history.offered ++ call.input.bytes
    outstanding := [] }

/-- After a call that failed the caller comes back with the same data, and possibly more. -/
def Retries (history : WriteHistory κ) : List WriteCall → Prop
  | [] => True
  | call :: calls => history.outstanding <+: call.input.bytes ∧
      ∀ next, history.call call = some next → Retries next calls

/-- What has become of the data and the records since `ssl`. -/
structure DeliveredExactly (ssl : TlsWriteState κ) (history : WriteHistory κ) : Prop where
  /-- at every moment the transport has accepted a prefix of what was unsent at first and the
    records sealed since then -/
  accepted_prefix_sealed : ∀ moment, moment <+: history.ssl.log →
    acceptedBytes moment <+: ssl.unsent ++ sealedRecords moment
  /-- the sealed plaintext is the data that was reported and a part of the data that the caller
    still has to offer again -/
  sealed_once : sealedPlaintext SSL3_RT_APPLICATION_DATA history.ssl.log = history.reported ++
    history.outstanding.take
      (history.ssl.unreportedBytesWritten + history.ssl.pendingWrite.size)
  /-- a write is pending only after a call that failed -/
  pending_within : history.ssl.unreportedBytesWritten + history.ssl.pendingWrite.size ≤
    history.outstanding.length
  /-- a call that succeeds has written all of its data, unless partial writes are enabled -/
  reported_whole : ssl.enablePartialWrite = false → history.reported = history.offered
  /-- the reported sizes add up to what was sealed once no write is pending -/
  sum_reported : history.ssl.unreportedBytesWritten = 0 → history.ssl.pendingWrite.size = 0 →
    history.bytesWritten = (sealedPlaintext SSL3_RT_APPLICATION_DATA history.ssl.log).length

structure Accounted (ssl : TlsWriteState κ) (history : WriteHistory κ) : Prop where
  wellFormed : history.ssl.WellFormed
  passes : Fifo.Passes ssl.unsent (history.ssl.log.map WriteEvent.toFifo) history.ssl.unsent
  sealed_once : sealedPlaintext SSL3_RT_APPLICATION_DATA history.ssl.log = history.reported ++
    history.outstanding.take
      (history.ssl.unreportedBytesWritten + history.ssl.pendingWrite.size)
  pending_within : history.ssl.unreportedBytesWritten + history.ssl.pendingWrite.size ≤
    history.outstanding.length
  length_reported : history.reported.length = history.bytesWritten
  enablePartialWrite : history.ssl.enablePartialWrite = ssl.enablePartialWrite
  reported_whole : ssl.enablePartialWrite = false → history.reported = history.offered

variable {ssl : TlsWriteState κ} {history : WriteHistory κ}

theorem start_accounted (ssl : IdleConnection κ) :
    (start ssl.toTlsWriteState).Accounted ssl.toTlsWriteState where
  wellFormed := ⟨ssl.wellFormed.layout, ssl.wellFormed.offset_le⟩
  passes := Fifo.Passes.nil
  sealed_once := by
    show [] = [] ++ List.take _ []
    rw [take_nil, append_nil]
  pending_within := by
    show ssl.unreportedBytesWritten + ssl.pendingWrite.size ≤ 0
    rw [ssl.nothing_unreported, ssl.nothing_pending]
  length_reported := rfl
  enablePartialWrite := rfl
  reported_whole := fun _ => rfl

/-- A call with the outstanding data returns and keeps the invariant. -/
theorem Accounted.call (h : history.Accounted ssl) {call : WriteCall}
    (hretry : history.outstanding <+: call.input.bytes) :
    ∃ next, history.call call = some next ∧ next.Accounted ssl := by
  have hwithin := h.pending_within
  have hlength := hretry.length_le
  have hsame : call.input.bytes.take
      (history.ssl.unreportedBytesWritten + history.ssl.pendingWrite.size) =
      history.outstanding.take
        (history.ssl.unreportedBytesWritten + history.ssl.pendingWrite.size) := by
    obtain ⟨more, hmore⟩ := hretry
    rw [← hmore, take_append_of_le_length hwithin]
  obtain ⟨result, ssl', plaintext, sealedUpTo, hcall, ⟨hwf, events, hlog, hpasses, hplaintext⟩,
      hseals, hbound, hpartial, houtcome⟩ :=
    TlsWriteState.tlsWriteAppData_spec { history.ssl with
      wbio := call.wbio, allocations := call.allocations } call.input
      ⟨h.wellFormed.layout, h.wellFormed.offset_le⟩ (by dsimp only; omega)
  dsimp only at hlog hpasses hseals hpartial
  have hqueue : Fifo.Passes ssl.unsent (ssl'.log.map WriteEvent.toFifo) ssl'.unsent := by
    rw [hlog, map_append]
    exact h.passes.trans hpasses
  have hsealed : sealedPlaintext SSL3_RT_APPLICATION_DATA ssl'.log =
      history.reported ++ call.input.bytes.take sealedUpTo := by
    rw [hlog, sealedPlaintext_append, h.sealed_once, hplaintext, ← hseals, hsame,
      append_assoc]
  have hmode : ssl'.enablePartialWrite = ssl.enablePartialWrite :=
    hpartial.trans h.enablePartialWrite
  unfold WriteHistory.call
  rw [hcall]
  simp only [bind_eq_bind, bind_some]
  cases houtcome with
  | failed hret hupTo =>
    rw [if_pos hret]
    rw [hupTo] at hsealed hbound
    exact ⟨_, rfl, hwf, hqueue, hsealed, hbound, h.length_reported, hmode, h.reported_whole⟩
  | succeeded hret hwritten hunreported hpending hwhole =>
    rw [if_neg (by rw [hret]; decide)]
    refine ⟨_, rfl, hwf, hqueue, ?_, ?_, ?_, hmode, ?_⟩
    · dsimp only
      rw [hsealed, hwritten, take_nil, append_nil]
    · dsimp only
      rw [hunreported, hpending]
      exact Nat.zero_le _
    · dsimp only
      rw [length_append, length_take, h.length_reported, hwritten,
        Nat.min_eq_left hbound]
    · intro hall
      dsimp only
      rw [h.reported_whole hall, hwritten, hwhole (hmode.trans hall), take_length]

/-- Every run of retries returns from each of its calls and keeps the invariant. -/
theorem Accounted.run {calls : List WriteCall} (h : history.Accounted ssl)
    (hretries : history.Retries calls) :
    ∃ final, Runs.run WriteHistory.call history calls = some final ∧ final.Accounted ssl := by
  induction calls generalizing history with
  | nil => exact ⟨history, rfl, h⟩
  | cons call calls ih =>
    obtain ⟨hretry, hrest⟩ := hretries
    obtain ⟨next, hnext, haccounted⟩ := h.call hretry
    rw [Runs.run_cons, hnext, bind_some]
    exact ih haccounted (hrest next hnext)

theorem Accounted.deliveredExactly (h : history.Accounted ssl) : history.DeliveredExactly ssl where
  accepted_prefix_sealed := by
    intro moment hmoment
    have hwithin := h.passes.left_within (hmoment.map WriteEvent.toFifo)
    rwa [left_toFifo, entered_toFifo] at hwithin
  sealed_once := h.sealed_once
  pending_within := h.pending_within
  reported_whole := h.reported_whole
  sum_reported := by
    intro hunreported hpending
    rw [h.sealed_once, hunreported, hpending, take_zero, append_nil, h.length_reported]

/-- **Retried writes.**  Take a connection on which no write is pending, any transport and any
    allocator, and any run of calls of `tls_write_app_data` in which the caller comes back with the
    same data after a failure.  Every call returns.  What the transport has accepted is at every
    moment a prefix of the sealed records in the order in which they were sealed, behind what was
    unsent at first; every byte of the data is sealed once and in order; and once no write is
    pending the reported sizes add up to the number of bytes sealed. -/
theorem tls_write_retries_deliver_exactly (ssl : IdleConnection κ) (calls : List WriteCall)
    (hretries : (start ssl.toTlsWriteState).Retries calls) :
    ∃ final, Runs.run WriteHistory.call (start ssl.toTlsWriteState) calls = some final ∧
      final.DeliveredExactly ssl.toTlsWriteState := by
  obtain ⟨final, hrun, haccounted⟩ := (start_accounted ssl).run hretries
  exact ⟨final, hrun, haccounted.deliveredExactly⟩

theorem outstanding_of_call {call : WriteCall} {next : WriteHistory κ}
    (h : history.call call = some next) : next.outstanding <+: call.input.bytes := by
  obtain ⟨⟨result, ssl'⟩, -, h⟩ := bind_eq_some_iff.mp h
  dsimp only at h
  by_cases hret : result.ret ≤ 0
  · rw [if_pos hret] at h
    cases h
    exact prefix_refl _
  · rw [if_neg hret] at h
    cases h
    exact nil_prefix

theorem retries_of_same_data {data : Bytes} {calls : List WriteCall}
    (hcalls : ∀ call ∈ calls, call.input.bytes = data) (h : history.outstanding <+: data) :
    history.Retries calls := by
  induction calls generalizing history with
  | nil => trivial
  | cons call calls ih =>
    have hdata := hcalls call mem_cons_self
    refine ⟨by rwa [hdata], fun next hnext => ?_⟩
    apply ih
    · intro later hlater
      exact hcalls later (mem_cons_of_mem _ hlater)
    · rw [← hdata]
      exact outstanding_of_call hnext

def copyingConnection : IdleConnection Unit where
  toSealState := copyingSealState true SequenceNumber.zeroed
  writeBuffer := .empty zeroInline
  pendingWrite := .none
  pendingWriteType := 0
  pendingFlight := some ⟨[1, 2, 3, 4], 8⟩
  pendingFlightOffset := 0
  pendingHsData := none
  keyUpdatePending := SSL_KEY_UPDATE_NONE
  rwstate := 0
  acceptMovingWriteBuffer := false
  wbio := none
  allocations := []
  log := []
  unreportedBytesWritten := 0
  writeShutdown := .none
  enablePartialWrite := false
  maxSendFragment := .largest
  server := false
  hs := none
  wellFormed := ⟨SslBuffer.empty_layout _, Nat.zero_le _⟩
  nothing_unreported := rfl
  nothing_pending := rfl

/-- Three bytes are offered twice.  The transport takes six bytes at first, the flight and
    the start of the record, and the rest at the second attempt. -/
def shortWrites : List WriteCall :=
  [{ input := ⟨0x1000, [7, 8, 9]⟩, wbio := some [6], allocations := [some ⟨0, fun _ => 0⟩] },
   { input := ⟨0x1000, [7, 8, 9]⟩, wbio := some [100], allocations := [] }]

theorem short_writes_deliver_exactly :
    (start copyingConnection.toTlsWriteState).Retries shortWrites ∧
      ∃ final, Runs.run WriteHistory.call (start copyingConnection.toTlsWriteState) shortWrites =
          some final ∧ final.DeliveredExactly copyingConnection.toTlsWriteState := by
  have hretries : (start copyingConnection.toTlsWriteState).Retries shortWrites :=
    @retries_of_same_data _ _ [7, 8, 9] _ (by decide) nil_prefix
  exact ⟨hretries, tls_write_retries_deliver_exactly copyingConnection shortWrites hretries⟩

end WriteHistory

end AwsLc
