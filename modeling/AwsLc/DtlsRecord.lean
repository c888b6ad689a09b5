import AwsLc.AeadContext
import AwsLc.SlidingWindow

/-!
# Receiving DTLS records (`dtls_record.cc`)

`dtls_open_record` drops a record whose epoch is not the current one or whose number was seen,
decrypts it and enters its number in the replay bitmap, a 256-bit window below the largest number
received, which refines the abstract window of `SlidingWindow`.
-/

namespace AwsLc

open AwsLc.BigEndian AwsLc.SlidingWindow

/-! ### Sequence numbers -/

/-- `to_u64_be`: `ret <<= 8; ret |= in[i]` over the eight bytes. -/
def toU64Be (bytes : Vector UInt8 8) : UInt64 :=
  bytes.toList.foldl (fun ret byte => (ret <<< 8) ||| byte.toUInt64) 0

/-- `to_u64_be` reads the eight bytes as one big-endian number. -/
theorem toU64Be_toNat (bytes : Vector UInt8 8) : (toU64Be bytes).toNat = beNat bytes.toList := by
  have hlt := beNat_lt bytes.toList
  rw [Vector.length_toList] at hlt
  rw [toU64Be, foldl_shiftOr_toNat]
  simp only [UInt64.toNat_ofNat, Nat.zero_mod, Nat.zero_mul, Nat.zero_add]
  exact Nat.mod_eq_of_lt (by omega)

/-! ### The replay bitmap -/

/-- `DTLS1_BITMAP`: bit `i` of `map` corresponds to `maxSeqNum - i`. -/
structure Dtls1Bitmap where
  map : BitVec 256 := 0
  maxSeqNum : UInt64 := 0
deriving DecidableEq, Repr

open Dtls1Bitmap

/-- `bitmap->map.size()`. -/
def Dtls1Bitmap.kWindowSize : Nat := 256

def dtls1BitmapShouldDiscard (bitmap : Dtls1Bitmap) (seqNum : Vector UInt8 8) : Bool :=
  let seqNumU := toU64Be seqNum
  if seqNumU > bitmap.maxSeqNum then false
  else
    let idx := (bitmap.maxSeqNum - seqNumU).toNat
    decide (kWindowSize ≤ idx) || bitmap.map.getLsbD idx

def dtls1BitmapRecord (bitmap : Dtls1Bitmap) (seqNum : Vector UInt8 8) : Dtls1Bitmap :=
  let seqNumU := toU64Be seqNum
  -- Shift the window if necessary.
  let bitmap :=
    if seqNumU > bitmap.maxSeqNum then
      let shift := (seqNumU - bitmap.maxSeqNum).toNat
      { map := if kWindowSize ≤ shift then 0 else bitmap.map <<< shift
        maxSeqNum := seqNumU }
    else bitmap
  let idx := (bitmap.maxSeqNum - seqNumU).toNat
  if idx < kWindowSize then
    { bitmap with map := bitmap.map ||| BitVec.twoPow 256 idx }
  else bitmap

def Dtls1Bitmap.Tracks (bitmap : Dtls1Bitmap) (accepted : List Nat) : Prop :=
  Represents kWindowSize bitmap.map.getLsbD bitmap.maxSeqNum.toNat accepted

theorem Dtls1Bitmap.tracks_zeroed : Dtls1Bitmap.Tracks {} [] := by
  have hbits : (0 : BitVec 256).getLsbD = fun _ => false := by
    funext index
    exact BitVec.getLsbD_zero
  unfold Dtls1Bitmap.Tracks
  rw [hbits]
  exact Represents.cleared

/-- The test of the source is the refusal rule of the abstract window. -/
theorem dtls1BitmapShouldDiscard_iff {bitmap : Dtls1Bitmap} {accepted : List Nat}
    (htracks : bitmap.Tracks accepted) (seqNum : Vector UInt8 8) :
    dtls1BitmapShouldDiscard bitmap seqNum = true ↔
      Refuses kWindowSize accepted (toU64Be seqNum).toNat := by
  rw [Represents.refuses_iff htracks (by decide)]
  unfold dtls1BitmapShouldDiscard
  by_cases habove : toU64Be seqNum > bitmap.maxSeqNum
  · have hnat : bitmap.maxSeqNum.toNat < (toU64Be seqNum).toNat := habove
    simp only [if_pos habove, Bool.false_eq_true, false_iff]
    omega
  · have hle : toU64Be seqNum ≤ bitmap.maxSeqNum := UInt64.not_lt.mp habove
    have hnat : (toU64Be seqNum).toNat ≤ bitmap.maxSeqNum.toNat := hle
    simp [if_neg habove, UInt64.toNat_sub_of_le _ _ hle, hnat]

theorem dtls1BitmapRecord_tracks {bitmap : Dtls1Bitmap} {accepted : List Nat}
    (htracks : bitmap.Tracks accepted) {seqNum : Vector UInt8 8}
    (hkeep : dtls1BitmapShouldDiscard bitmap seqNum = false) :
    (dtls1BitmapRecord bitmap seqNum).Tracks ((toU64Be seqNum).toNat :: accepted) := by
  by_cases habove : toU64Be seqNum > bitmap.maxSeqNum
  · -- a new maximum: the map slides, or is reset when it slides out entirely
    have hnat : bitmap.maxSeqNum.toNat < (toU64Be seqNum).toNat := habove
    have hshift : (toU64Be seqNum - bitmap.maxSeqNum).toNat =
        (toU64Be seqNum).toNat - bitmap.maxSeqNum.toNat :=
      UInt64.toNat_sub_of_le _ _ (UInt64.le_of_lt habove)
    have hself : (toU64Be seqNum - toU64Be seqNum).toNat = 0 := by simp
    have hpos : 0 < kWindowSize := by decide
    simp only [dtls1BitmapRecord, Dtls1Bitmap.Tracks, if_pos habove, hself, if_pos hpos, hshift]
    refine Represents.advance htracks hnat ?_
    intro index hindex
    have hindex' : index < 256 := hindex
    by_cases hfar :
        kWindowSize ≤ (toU64Be seqNum).toNat - bitmap.maxSeqNum.toNat
    · rw [if_pos hfar, BitVec.getLsbD_or, BitVec.getLsbD_twoPow]
      constructor
      · intro hbit
        have hzero : 0 = index := by simpa using hbit
        exact Or.inl hzero.symm
      · rintro (rfl | ⟨hge, -⟩)
        · simp
        · unfold kWindowSize at *
          omega
    · simp only [if_neg hfar, BitVec.getLsbD_or, BitVec.getLsbD_shiftLeft,
        BitVec.getLsbD_twoPow, hindex', decide_true, Bool.true_and, Bool.or_eq_true,
        Bool.and_eq_true, Bool.not_eq_true', decide_eq_false_iff_not, Nat.not_lt,
        decide_eq_true_eq]
      constructor
      · rintro (hold | hzero)
        · exact Or.inr hold
        · exact Or.inl hzero.2.symm
      · rintro (hzero | hold)
        · exact Or.inr ⟨by decide, hzero.symm⟩
        · exact Or.inl hold
  · -- an old number: only its own bit is set
    have hle : toU64Be seqNum ≤ bitmap.maxSeqNum := UInt64.not_lt.mp habove
    have hnat : (toU64Be seqNum).toNat ≤ bitmap.maxSeqNum.toNat := hle
    have hidx := UInt64.toNat_sub_of_le _ _ hle
    have hnear : bitmap.maxSeqNum.toNat - (toU64Be seqNum).toNat <
        kWindowSize := by
      simp only [dtls1BitmapShouldDiscard, if_neg habove, hidx, Bool.or_eq_false_iff,
        decide_eq_false_iff_not, Nat.not_le] at hkeep
      exact hkeep.1
    simp only [dtls1BitmapRecord, Dtls1Bitmap.Tracks, if_neg habove, hidx, if_pos hnear]
    refine Represents.mark htracks hnat hnear ?_
    intro index _
    rw [BitVec.getLsbD_or, BitVec.getLsbD_twoPow]
    have hbound : bitmap.maxSeqNum.toNat - (toU64Be seqNum).toNat < 256 := hnear
    simp only [hbound, decide_true, Bool.true_and, Bool.or_eq_true, decide_eq_true_eq]
    exact ⟨fun h => h.symm.imp Eq.symm id, fun h => h.symm.imp id Eq.symm⟩

structure ReplayRun where
  bitmap : Dtls1Bitmap := {}
  accepted : List Nat := []

open ReplayRun

def ReplayRun.receive (run : ReplayRun) (seqNum : Vector UInt8 8) : ReplayRun :=
  if dtls1BitmapShouldDiscard run.bitmap seqNum then run
  else
    { bitmap := dtls1BitmapRecord run.bitmap seqNum
      accepted := (toU64Be seqNum).toNat :: run.accepted }

variable (seqNums : List (Vector UInt8 8))

/-- The run over `seqNums` from the zeroed bitmap. -/
def ReplayRun.process : ReplayRun :=
  seqNums.foldl receive {}

structure ReplayRun.Valid (run : ReplayRun) : Prop where
  tracks : run.bitmap.Tracks run.accepted
  nodup : run.accepted.Nodup

theorem ReplayRun.valid_receive {run : ReplayRun} (hvalid : run.Valid)
    (seqNum : Vector UInt8 8) : (run.receive seqNum).Valid := by
  unfold receive
  split
  · exact hvalid
  · rename_i hkeep
    rw [Bool.not_eq_true] at hkeep
    refine ⟨dtls1BitmapRecord_tracks hvalid.tracks hkeep, ?_⟩
    refine List.nodup_cons.mpr ⟨?_, hvalid.nodup⟩
    intro hmem
    have hdiscard := (dtls1BitmapShouldDiscard_iff hvalid.tracks seqNum).mpr (Or.inl hmem)
    rw [hkeep] at hdiscard
    cases hdiscard

theorem ReplayRun.valid_process : (process seqNums).Valid :=
  List.foldlRecOn seqNums receive
    ⟨tracks_zeroed, List.nodup_nil⟩
    (fun _ hvalid seqNum _ => valid_receive hvalid seqNum)

/-- **Anti-replay over whole runs.**  After any finite sequence of numbers, no number has been
    accepted twice; the next number is discarded exactly when it was accepted before or lies 256 or
    more below the largest accepted number; and in particular a fresh number less than 256 below
    every accepted one is accepted. -/
theorem replay_run_exact (seqNum : Vector UInt8 8) : (process seqNums).accepted.Nodup ∧
    (dtls1BitmapShouldDiscard (process seqNums).bitmap seqNum = true ↔
      (toU64Be seqNum).toNat ∈ (process seqNums).accepted ∨ ∃ top ∈ (process seqNums).accepted,
        (∀ other ∈ (process seqNums).accepted, other ≤ top) ∧ (toU64Be seqNum).toNat + 256 ≤ top) ∧
    ((toU64Be seqNum).toNat ∉ (process seqNums).accepted → (∀ other ∈ (process seqNums).accepted,
        other < (toU64Be seqNum).toNat + 256) → (process (seqNums ++ [seqNum])).accepted =
        (toU64Be seqNum).toNat :: (process seqNums).accepted) := by
  have hvalid := valid_process seqNums
  have hiff := dtls1BitmapShouldDiscard_iff hvalid.tracks seqNum
  refine ⟨hvalid.nodup, hiff, ?_⟩
  intro hfresh hnear
  have hkeep : dtls1BitmapShouldDiscard (process seqNums).bitmap seqNum ≠ true := by
    intro hdiscard
    rcases hiff.mp hdiscard with hmem | ⟨top, htop, -, hfar⟩
    · exact hfresh hmem
    · have hlt := hnear top htop
      have hfar' : (toU64Be seqNum).toNat + 256 ≤ top := hfar
      omega
  simp only [process, List.foldl_append, List.foldl_cons, List.foldl_nil]
  unfold receive
  exact congrArg ReplayRun.accepted (if_neg hkeep)

/-! ### Opening a record -/

def SSL3_RT_CHANGE_CIPHER_SPEC : UInt8 := 20
def SSL3_RT_ALERT : UInt8 := 21
def SSL3_RT_HANDSHAKE : UInt8 := 22
def SSL3_RT_APPLICATION_DATA : UInt8 := 23
def SSL3_RT_MAX_PLAIN_LENGTH : Nat := 16384
def SSL3_RT_MAX_ENCRYPTED_LENGTH : Nat := 256 + 64 + SSL3_RT_MAX_PLAIN_LENGTH
def DTLS1_RT_HEADER_LENGTH : Nat := 13
def DTLS1_VERSION_MAJOR : UInt16 := 0xfe

def SSL3_AL_WARNING : UInt8 := 1
def SSL3_AL_FATAL : UInt8 := 2
def SSL_AD_CLOSE_NOTIFY : UInt8 := 0
def SSL_AD_UNEXPECTED_MESSAGE : UInt8 := 10
def SSL_AD_RECORD_OVERFLOW : UInt8 := 22
def SSL_AD_ILLEGAL_PARAMETER : UInt8 := 47
def SSL_AD_DECODE_ERROR : UInt8 := 50
def SSL_AD_INTERNAL_ERROR : UInt8 := 80
def SSL_AD_USER_CANCELLED : UInt8 := 90

def kMaxWarningAlerts : UInt8 := 4

inductive SslShutdown where
  | none
  | closeNotify
  | error
deriving DecidableEq, Repr

/-- `ssl_open_record_t` with the outputs that are set on each return: the record
    type and body on success, the alert to send on an error. -/
inductive OpenRecord where
  | success (type : UInt8) (out : Bytes)
  | discard
  | partialRecord
  | closeNotify
  | error (alert : UInt8)
deriving DecidableEq, Repr

/-- The fields of `SSL`, `SSL3_STATE` and `DTLS1_STATE` that the receiving half
    of the DTLS record layer reads or writes. -/
structure DtlsReadState (κ : Type) where
  readShutdown : SslShutdown
  aeadReadCtx : SslAeadContext κ
  haveVersion : Bool
  version : UInt16
  warningAlertCount : UInt8
  rEpoch : UInt16
  bitmap : Dtls1Bitmap

variable {κ : Type}
variable (ssl : DtlsReadState κ)

def sslProcessAlert : Bytes → OpenRecord × DtlsReadState κ
  | [alertLevel, alertDescr] =>
    if alertLevel = SSL3_AL_WARNING then
      if alertDescr = SSL_AD_CLOSE_NOTIFY then
        (.closeNotify, { ssl with readShutdown := .closeNotify })
      else if ssl.haveVersion ∧
          TLS1_3_VERSION ≤ (sslProtocolVersionFromWire ssl.version).getD 0 ∧
          alertDescr ≠ SSL_AD_USER_CANCELLED then
        (.error SSL_AD_DECODE_ERROR, ssl)
      else
        let ssl := { ssl with warningAlertCount := ssl.warningAlertCount + 1 }
        if ssl.warningAlertCount > kMaxWarningAlerts then
          (.error SSL_AD_UNEXPECTED_MESSAGE, ssl)
        else (.discard, ssl)
    else if alertLevel = SSL3_AL_FATAL then
      -- No alert to send back to the peer.
      (.error 0, ssl)
    else (.error SSL_AD_ILLEGAL_PARAMETER, ssl)
  | _ => (.error SSL_AD_DECODE_ERROR, ssl)

structure DtlsRecord where
  type : UInt8
  version : UInt16
  sequence : Vector UInt8 8
  body : Bytes
  rest : Bytes

/-- The decoding step of `dtls_open_record`. -/
def dtlsParseRecord (packet : Bytes) : Option DtlsRecord := do
  let (type, cbs) ← cbsGetU8 packet
  let (version, cbs) ← cbsGetU16 cbs
  let (sequence, cbs) ← cbsCopyBytes cbs 8
  let (body, cbs) ← cbsGetU16LengthPrefixed cbs
  if body.length > SSL3_RT_MAX_ENCRYPTED_LENGTH then none
  else some { type, version, sequence, body, rest := cbs }

def DtlsRecord.epoch (record : DtlsRecord) : UInt16 :=
  (record.sequence[0].toUInt16 <<< 8) ||| record.sequence[1].toUInt16

/-- The record version check: before a cipher is set only the major version is
    compared, so that version negotiation alerts can be read. -/
def dtlsVersionOk (version : UInt16) : Bool :=
  if ssl.aeadReadCtx.isNullCipher then version >>> 8 == DTLS1_VERSION_MAJOR
  else version == ssl.aeadReadCtx.recordVersion

/-- `dtls_open_record`: the result, `*out_consumed` and the state after it. -/
def dtlsOpenRecord (packet : Bytes) : OpenRecord × Nat × DtlsReadState κ :=
  if ssl.readShutdown = .closeNotify then (.closeNotify, 0, ssl)
  else if packet = [] then (.partialRecord, 0, ssl)
  else
    match dtlsParseRecord packet with
    -- The record header was incomplete or malformed. Drop the entire packet.
    | none => (.discard, packet.length, ssl)
    | some record =>
      let consumed := packet.length - record.rest.length
      if !dtlsVersionOk ssl record.version then (.discard, packet.length, ssl)
      -- A record from the wrong epoch, or a replay.
      else if record.epoch ≠ ssl.rEpoch ∨
          dtls1BitmapShouldDiscard ssl.bitmap record.sequence then (.discard, consumed, ssl)
      else
        match ssl.aeadReadCtx.openRecord record.type record.version record.sequence.toList
            (packet.take DTLS1_RT_HEADER_LENGTH) record.body with
        -- Bad packets are silently dropped in DTLS.
        | none => (.discard, consumed, ssl)
        | some out =>
          if out.length > SSL3_RT_MAX_PLAIN_LENGTH then
            (.error SSL_AD_RECORD_OVERFLOW, consumed, ssl)
          else
            let ssl := { ssl with bitmap := dtls1BitmapRecord ssl.bitmap record.sequence }
            if record.type = SSL3_RT_ALERT then
              let (ret, ssl) := sslProcessAlert ssl out
              (ret, consumed, ssl)
            else (.success record.type out, consumed, { ssl with warningAlertCount := 0 })

/-- An alert never yields a record and touches neither keys, epoch nor bitmap. -/
theorem sslProcessAlert_frame (body : Bytes) :
    (∀ type out, (sslProcessAlert ssl body).1 ≠ .success type out) ∧
    (sslProcessAlert ssl body).2.bitmap = ssl.bitmap ∧
    (sslProcessAlert ssl body).2.rEpoch = ssl.rEpoch ∧
    (sslProcessAlert ssl body).2.aeadReadCtx = ssl.aeadReadCtx := by
  unfold sslProcessAlert
  split
  · dsimp only
    split_ifs <;> simp
  · simp

/-- What one call does to the replay window: nothing, or recording the number of a record of the
    current epoch that was not discarded and that decrypted. -/
theorem dtlsOpenRecord_cases (packet : Bytes) :
    ((∀ type out, (dtlsOpenRecord ssl packet).1 ≠ .success type out) ∧
      (dtlsOpenRecord ssl packet).2.2 = ssl) ∨
    ∃ record out, dtlsParseRecord packet = some record ∧ record.epoch = ssl.rEpoch ∧
      dtls1BitmapShouldDiscard ssl.bitmap record.sequence = false ∧
      ssl.aeadReadCtx.openRecord record.type record.version record.sequence.toList
        (packet.take DTLS1_RT_HEADER_LENGTH) record.body = some out ∧
      (dtlsOpenRecord ssl packet).2.2.bitmap = dtls1BitmapRecord ssl.bitmap record.sequence ∧
      (dtlsOpenRecord ssl packet).2.2.rEpoch = ssl.rEpoch ∧
      (dtlsOpenRecord ssl packet).2.2.aeadReadCtx = ssl.aeadReadCtx ∧
      ∀ type body, (dtlsOpenRecord ssl packet).1 = .success type body →
        type = record.type ∧ body = out := by
  unfold dtlsOpenRecord
  split
  · exact Or.inl ⟨by simp, rfl⟩
  split
  · exact Or.inl ⟨by simp, rfl⟩
  split
  · exact Or.inl ⟨by simp, rfl⟩
  rename_i record hparse
  dsimp only
  split
  · exact Or.inl ⟨by simp, rfl⟩
  split
  · exact Or.inl ⟨by simp, rfl⟩
  rename_i hfresh
  rw [not_or, not_not, Bool.not_eq_true] at hfresh
  split
  · exact Or.inl ⟨by simp, rfl⟩
  rename_i out hopen
  split
  · exact Or.inl ⟨by simp, rfl⟩
  split
  · -- an alert is recorded in the bitmap, but is not handed on as a record
    obtain ⟨hnone, hbitmap, hepoch, haead⟩ := sslProcessAlert_frame
      { ssl with bitmap := dtls1BitmapRecord ssl.bitmap record.sequence } out
    refine Or.inr ⟨record, out, hparse, hfresh.1, hfresh.2, hopen, hbitmap, hepoch, haead, ?_⟩
    intro type body hsuccess
    exact absurd hsuccess (hnone type body)
  · refine Or.inr ⟨record, out, hparse, hfresh.1, hfresh.2, hopen, rfl, rfl, rfl, ?_⟩
    intro type body hsuccess
    injection hsuccess with htype hbody
    exact ⟨htype.symm, hbody.symm⟩

/-- A run of `dtls_open_record` in one epoch, with the sequence numbers of the
    records it returned, newest first. -/
structure DtlsReadRun (κ : Type) where
  ssl : DtlsReadState κ
  delivered : List Nat

def DtlsReadRun.receive (run : DtlsReadRun κ) (packet : Bytes) : DtlsReadRun κ :=
  match dtlsOpenRecord run.ssl packet, dtlsParseRecord packet with
  | (.success _ _, _, ssl), some record =>
      { ssl, delivered := (toU64Be record.sequence).toNat :: run.delivered }
  | (_, _, ssl), _ => { run with ssl }

def DtlsReadRun.Valid (run : DtlsReadRun κ) : Prop :=
  ∃ history : List Nat, run.ssl.bitmap.Tracks history ∧ history.Nodup ∧
    run.delivered.Sublist history

theorem DtlsReadRun.valid_receive {run : DtlsReadRun κ} (hvalid : run.Valid)
    (packet : Bytes) : (run.receive packet).Valid := by
  obtain ⟨history, htracks, hnodup, hsub⟩ := hvalid
  rcases dtlsOpenRecord_cases run.ssl packet with
    ⟨hnone, hsame⟩ | ⟨record, out, hparse, -, hkeep, -, hbitmap, -, -, -⟩
  · unfold DtlsReadRun.receive
    split
    · rename_i hopen _
      exact absurd (congrArg Prod.fst hopen) (hnone _ _)
    · rename_i hopen _
      refine ⟨history, ?_, hnodup, hsub⟩
      rw [hopen] at hsame
      subst hsame
      exact htracks
  · have hfresh : (toU64Be record.sequence).toNat ∉ history := by
      intro hmem
      have hdiscard := (dtls1BitmapShouldDiscard_iff htracks record.sequence).mpr (Or.inl hmem)
      rw [hkeep] at hdiscard
      cases hdiscard
    have htracks' := dtls1BitmapRecord_tracks htracks hkeep
    rw [← hbitmap] at htracks'
    unfold DtlsReadRun.receive
    rw [hparse]
    split
    · rename_i hopen hsome
      cases hsome
      rw [hopen] at htracks'
      exact ⟨_, htracks', List.nodup_cons.mpr ⟨hfresh, hnodup⟩, hsub.cons_cons _⟩
    · rename_i hopen _
      rw [hopen] at htracks'
      exact ⟨_, htracks', List.nodup_cons.mpr ⟨hfresh, hnodup⟩, hsub.cons _⟩

/-- **No record is delivered twice.**  Whatever packets arrive while one key is in use, the sequence
    numbers of the records that `dtls_open_record` returns are pairwise distinct. -/
theorem dtls_records_delivered_once (ssl : DtlsReadState κ) (packets : List Bytes) :
    (packets.foldl DtlsReadRun.receive
      { ssl := { ssl with bitmap := {} }, delivered := [] }).delivered.Nodup := by
  have hvalid := List.foldlRecOn packets DtlsReadRun.receive
    (motive := DtlsReadRun.Valid (κ := κ))
    (b := { ssl := { ssl with bitmap := {} }, delivered := [] })
    ⟨[], Dtls1Bitmap.tracks_zeroed, List.nodup_nil, List.nil_sublist _⟩
    (fun _ hvalid packet _ => DtlsReadRun.valid_receive hvalid packet)
  obtain ⟨history, -, hnodup, hsub⟩ := hvalid
  exact hsub.nodup hnodup

def dtlsEncodeRecord (type : UInt8) (version : UInt16) (sequence : Vector UInt8 8)
    (body : Bytes) : Bytes :=
  cbbAddU8 type ++ (cbbAddU16 version ++ (sequence.toList ++ (beBytes 2 body.length ++ body)))

variable {sequence : Vector UInt8 8}

theorem dtlsParseRecord_encode {type : UInt8} {version : UInt16} {body : Bytes}
    (hlength : body.length ≤ SSL3_RT_MAX_ENCRYPTED_LENGTH) :
    dtlsParseRecord (dtlsEncodeRecord type version sequence body) =
      some { type, version, sequence, body, rest := [] } := by
  have hbody : cbsGetU16LengthPrefixed (beBytes 2 body.length ++ body) = some (body, []) := by
    have hfits : body.length < 256 ^ 2 := Nat.lt_of_le_of_lt hlength (by decide)
    have h := cbsGetLengthPrefixed_append hfits []
    rwa [List.append_nil] at h
  simp only [dtlsParseRecord, dtlsEncodeRecord, Option.bind_eq_bind, cbsGetU8_cbbAddU8,
    cbsGetU16_cbbAddU16, cbsCopyBytes_append, hbody, Option.bind_some]
  rw [if_neg (Nat.not_lt.mpr hlength)]

/-- Before the first key change, a record of the current epoch with a number above
    all those received is returned as it is. -/
theorem dtlsOpenRecord_null {ssl : DtlsReadState κ} {type : UInt8} {version : UInt16} {body : Bytes}
    (hopen : ssl.readShutdown ≠ .closeNotify) (hnull : ssl.aeadReadCtx.isNullCipher = true)
    (hversion : version >>> 8 = DTLS1_VERSION_MAJOR) (htype : type ≠ SSL3_RT_ALERT)
    (hepoch : (sequence[0].toUInt16 <<< 8) ||| sequence[1].toUInt16 = ssl.rEpoch)
    (hfresh : ssl.bitmap.maxSeqNum < toU64Be sequence)
    (hlength : body.length ≤ SSL3_RT_MAX_PLAIN_LENGTH) :
    ∃ consumed, dtlsOpenRecord ssl (dtlsEncodeRecord type version sequence body) =
      (.success type body, consumed,
        { ssl with
          bitmap := dtls1BitmapRecord ssl.bitmap sequence
          warningAlertCount := 0 }) := by
  have hparse : dtlsParseRecord (dtlsEncodeRecord type version sequence body) =
      some { type, version, sequence, body, rest := [] } :=
    dtlsParseRecord_encode (Nat.le_trans hlength (by decide))
  have hkeep : dtls1BitmapShouldDiscard ssl.bitmap sequence = false := if_pos hfresh
  have hok : dtlsVersionOk ssl version = true := by
    rw [dtlsVersionOk, if_pos hnull, hversion]
    rfl
  unfold dtlsOpenRecord
  rw [if_neg hopen, if_neg (by simp [dtlsEncodeRecord, cbbAddU8]), hparse]
  dsimp only
  rw [hok, hkeep, if_neg (by decide), if_neg (by simpa [DtlsRecord.epoch] using hepoch)]
  rw [SslAeadContext.openRecord, if_pos hnull]
  dsimp only
  rw [if_neg (Nat.not_lt.mpr hlength), if_neg htype]
  exact ⟨_, rfl⟩

theorem dtls1BitmapRecord_maxSeqNum {bitmap : Dtls1Bitmap}
    (hfresh : bitmap.maxSeqNum < toU64Be sequence) :
    (dtls1BitmapRecord bitmap sequence).maxSeqNum = toU64Be sequence := by
  unfold dtls1BitmapRecord
  dsimp only
  rw [if_pos hfresh]
  split_ifs <;> rfl

end AwsLc
