import AwsLc.AeadContext
import AwsLc.DtlsRecord
import AwsLc.RecordSequence

/-!
# Sealing records (`tls_record.cc`, `dtls_record.cc`)

`do_seal_record` and `dtls_seal_record` seal a body under the current sequence number and then
advance the number.  A call that fails before that leaves the number where it is; a call whose
number wraps has sealed a record and returns failure.
-/

namespace AwsLc

open AwsLc.BigEndian List

variable {κ : Type}

/-! ### TLS -/

structure SealState (κ : Type) where
  aeadWriteCtx : SslAeadContext κ
  writeSequence : SequenceNumber
  /-- `SSL_MODE_CBC_RECORD_SPLITTING` is set -/
  cbcRecordSplitting : Bool

variable (ssl : SealState κ)

def sslNeedsRecordSplitting : Bool :=
  !ssl.aeadWriteCtx.isNullCipher && ssl.aeadWriteCtx.protocolVersion < TLS1_1_VERSION &&
    ssl.cbcRecordSplitting && ssl.aeadWriteCtx.isBlockCipher

variable (aead : SslAeadContext κ)

def hiddenType (type : UInt8) : Bytes :=
  if !aead.isNullCipher && aead.protocolVersion ≥ TLS1_3_VERSION then [type] else []

def tlsRecordHeader (type : UInt8) (ciphertextLen : Nat) : Bytes :=
  (if hiddenType aead type ≠ [] then SSL3_RT_APPLICATION_DATA else type) ::
    (cbbAddU16 aead.recordVersion ++ beBytes 2 ciphertextLen)

variable (type : UInt8)
variable (input : Bytes)

def doSealRecordCall : Option (Bytes × Option (Bytes × Bytes × Bytes) × SslAeadContext κ) := do
  let aead := ssl.aeadWriteCtx
  let extraIn := hiddenType aead type
  let ciphertextLen ← aead.ciphertextLen input.length extraIn.length
  let header := tlsRecordHeader aead type ciphertextLen
  return (header, aead.sealScatter (header.headD 0) aead.recordVersion ssl.writeSequence.bytes
    header input extraIn)

def doSealRecord : Option Bytes × SealState κ :=
  match doSealRecordCall ssl type input with
  | none => (none, ssl)
  | some (_, none, aead) => (none, { ssl with aeadWriteCtx := aead })
  | some (header, some (explicitNonce, out, suffix), aead) =>
    let (ok, writeSequence) := ssl.writeSequence.update 0
    let ssl := { ssl with aeadWriteCtx := aead, writeSequence }
    if ok then (some (header ++ explicitNonce ++ out ++ suffix), ssl) else (none, ssl)

/-- `tls_seal_scatter_record`, which splits off one byte first for the TLS 1.0 CBC ciphers. -/
def tlsSealScatterRecord : Option Bytes × SealState κ :=
  if type = SSL3_RT_APPLICATION_DATA ∧ input.length > 1 ∧ sslNeedsRecordSplitting ssl then
    match doSealRecord ssl type (input.take 1) with
    | (none, ssl) => (none, ssl)
    | (some split, ssl) =>
      match doSealRecord ssl type (input.drop 1) with
      | (none, ssl) => (none, ssl)
      | (some record, ssl) => (some (split ++ record), ssl)
  else doSealRecord ssl type input

/-- Whether `tls_seal_scatter_record` splits the record. -/
def splitsRecord (inLen : Nat) : Bool :=
  type = SSL3_RT_APPLICATION_DATA && inLen > 1 && sslNeedsRecordSplitting ssl

def tlsSealScatterPrefixLen (inLen : Nat) : Nat :=
  SSL3_RT_HEADER_LENGTH +
    if splitsRecord ssl type inLen then
      ssl.aeadWriteCtx.recordSplitLen + (SSL3_RT_HEADER_LENGTH - 1)
    else ssl.aeadWriteCtx.explicitNonceLen

def tlsSealScatterSuffixLen (inLen : Nat) : Option Nat :=
  ssl.aeadWriteCtx.suffixLen (if splitsRecord ssl type inLen then inLen - 1 else inLen)
    (hiddenType ssl.aeadWriteCtx type).length

def tlsSealRecord (maxOut : Nat) (type : UInt8) (input : Bytes) : Option Bytes × SealState κ :=
  match tlsSealScatterSuffixLen ssl type input.length with
  | none => (none, ssl)
  | some suffixLen =>
    if maxOut < input.length + tlsSealScatterPrefixLen ssl type input.length + suffixLen then
      (none, ssl)
    else tlsSealScatterRecord ssl type input

def sslMaxSealOverhead : Nat :=
  let ret := SSL3_RT_HEADER_LENGTH + ssl.aeadWriteCtx.maxOverhead +
    (hiddenType ssl.aeadWriteCtx 0).length
  if sslNeedsRecordSplitting ssl then ret * 2 else ret

def sslSealAlignPrefixLen : Nat :=
  SSL3_RT_HEADER_LENGTH + ssl.aeadWriteCtx.explicitNonceLen +
    if sslNeedsRecordSplitting ssl then
      SSL3_RT_HEADER_LENGTH + ssl.aeadWriteCtx.recordSplitLen
    else 0

theorem length_tlsRecordHeader (type : UInt8) (ciphertextLen : Nat) :
    (tlsRecordHeader aead type ciphertextLen).length = SSL3_RT_HEADER_LENGTH := by
  simp [tlsRecordHeader, cbbAddU16, SSL3_RT_HEADER_LENGTH]

/-- After a success the parts of the record have the announced lengths, and of the context only the
    state of the cipher changed. -/
theorem doSealRecord_eq_some {ssl ssl' : SealState κ} {type : UInt8} {input record : Bytes}
    (h : doSealRecord ssl type input = (some record, ssl')) :
    (∃ suffixLen, ssl.aeadWriteCtx.suffixLen input.length
          (hiddenType ssl.aeadWriteCtx type).length = some suffixLen ∧
        record.length = SSL3_RT_HEADER_LENGTH + ssl.aeadWriteCtx.explicitNonceLen + input.length +
          suffixLen) ∧ ∃ ctx, ssl'.aeadWriteCtx = { ssl.aeadWriteCtx with ctx := ctx } := by
  unfold doSealRecord at h
  split at h
  · cases h
  · cases h
  rename_i header explicitNonce out suffix aead hcall
  dsimp only at h
  by_cases hok : (ssl.writeSequence.update 0).1 = true
  · rw [if_pos hok] at h
    cases h
    unfold doSealRecordCall at hcall
    obtain ⟨ciphertextLen, -, hcall⟩ := Option.bind_eq_some_iff.mp hcall
    simp only [Option.pure_def, Option.some.injEq, Prod.mk.injEq] at hcall
    obtain ⟨rfl, hseal⟩ := hcall
    obtain ⟨hnonce, hout, hsuffix⟩ :=
      SslAeadContext.sealScatter_length ssl.writeSequence.length_eq hseal
    obtain ⟨ctx, hctx⟩ := ssl.aeadWriteCtx.sealScatter_frame _ _ ssl.writeSequence.bytes _ input _
    rw [hseal] at hctx
    refine ⟨⟨suffix.length, hsuffix, ?_⟩, ctx, hctx⟩
    simp only [length_append, length_tlsRecordHeader, hnonce, hout]
  · rw [if_neg hok] at h
    cases h

theorem tlsSealRecord_length {ssl ssl' : SealState κ} {maxOut : Nat} {type : UInt8}
    {input record : Bytes} (h : tlsSealRecord ssl maxOut type input = (some record, ssl')) :
    record.length ≤ maxOut := by
  unfold tlsSealRecord at h
  split at h
  · cases h
  rename_i suffixLen hsuffixLen
  split at h
  · cases h
  rename_i hroom
  unfold tlsSealScatterRecord at h
  by_cases hsplit : type = SSL3_RT_APPLICATION_DATA ∧ input.length > 1 ∧
      sslNeedsRecordSplitting ssl = true
  · rw [if_pos hsplit] at h
    obtain ⟨htype, hlong, hneeds⟩ := hsplit
    have hsplits : splitsRecord ssl type input.length = true := by
      simp [splitsRecord, htype, hlong, hneeds]
    split at h
    · cases h
    rename_i first middle hfirst
    split at h
    · cases h
    rename_i second final hsecond
    cases h
    obtain ⟨⟨firstSuffix, hfirstSuffix, hfirstLength⟩, ctx, hctx⟩ := doSealRecord_eq_some hfirst
    obtain ⟨⟨secondSuffix, hsecondSuffix, hsecondLength⟩, -⟩ := doSealRecord_eq_some hsecond
    -- the cipher is a block cipher of TLS 1.0, for which the lengths are known
    simp only [sslNeedsRecordSplitting, Bool.and_eq_true, Bool.not_eq_true',
      decide_eq_true_eq] at hneeds
    obtain ⟨⟨⟨hcipher, hversion⟩, -⟩, hblock⟩ := hneeds
    obtain ⟨hnonce, hsplitPos, htag⟩ := ssl.aeadWriteCtx.split_len hcipher hblock hversion
    have hhidden : hiddenType ssl.aeadWriteCtx type = [] := by
      rw [hiddenType, if_neg]
      rw [Bool.and_eq_true, decide_eq_true_eq, not_and]
      intro _ htls13
      have hbelow := UInt16.lt_iff_toNat_lt.mp hversion
      have habove := UInt16.le_iff_toNat_le.mp htls13
      have hversions : TLS1_1_VERSION.toNat ≤ TLS1_3_VERSION.toNat := by decide
      omega
    have hhidden' : hiddenType middle.aeadWriteCtx type = [] := by rw [hctx]; exact hhidden
    have hexplicit : ssl.aeadWriteCtx.explicitNonceLen = 0 := by
      unfold SslAeadContext.explicitNonceLen
      split
      · next hincluded => exact hnonce hincluded
      · rfl
    have hexplicit' : middle.aeadWriteCtx.explicitNonceLen = 0 := by rw [hctx]; exact hexplicit
    have htake : (input.take 1).length = 1 := by rw [length_take]; omega
    rw [htake, hhidden, SslAeadContext.suffixLen, if_neg (by rw [hcipher]; decide),
      length_nil, htag] at hfirstSuffix
    cases hfirstSuffix
    rw [hhidden', hctx] at hsecondSuffix
    rw [tlsSealScatterSuffixLen, hsplits, hhidden] at hsuffixLen
    have hsame : secondSuffix = suffixLen := by
      rw [length_drop] at hsecondSuffix
      exact Option.some.inj (hsecondSuffix.symm.trans hsuffixLen)
    rw [tlsSealScatterPrefixLen, hsplits] at hroom
    simp only [if_true] at hroom
    rw [length_drop, hexplicit'] at hsecondLength
    rw [htake, hexplicit] at hfirstLength
    rw [length_append]
    omega
  · rw [if_neg hsplit] at h
    have hsplits : splitsRecord ssl type input.length = false := by
      rw [splitsRecord]
      simpa [and_assoc] using hsplit
    obtain ⟨⟨suffix, hsuffix, hlength⟩, -⟩ := doSealRecord_eq_some h
    rw [tlsSealScatterSuffixLen, hsplits] at hsuffixLen
    simp only [Bool.false_eq_true, if_false] at hsuffixLen
    rw [hsuffix] at hsuffixLen
    cases hsuffixLen
    rw [tlsSealScatterPrefixLen, hsplits] at hroom
    simp only [Bool.false_eq_true, if_false] at hroom
    omega

/-! ### DTLS -/

inductive Dtls1UseEpoch where
  | previous
  | current
deriving DecidableEq, Repr

/-- The fields that sealing a DTLS record reads or writes.  The `last` fields are
    set by the first key change and are read only after it. -/
structure DtlsWriteState (κ : Type) where
  aeadWriteCtx : SslAeadContext κ
  writeSequence : SequenceNumber
  wEpoch : UInt16
  lastAeadWriteCtx : SslAeadContext κ
  lastWriteSequence : SequenceNumber

def getWriteAead (ssl : DtlsWriteState κ) : Dtls1UseEpoch → SslAeadContext κ
  | .previous => ssl.lastAeadWriteCtx
  | .current => ssl.aeadWriteCtx

/-- The sequence number that `dtls_seal_record` seals with. -/
def getWriteSequence (ssl : DtlsWriteState κ) : Dtls1UseEpoch → SequenceNumber
  | .previous => ssl.lastWriteSequence
  | .current => ssl.writeSequence

def setWriteAead (ssl : DtlsWriteState κ) (aead : SslAeadContext κ) :
    Dtls1UseEpoch → DtlsWriteState κ
  | .previous => { ssl with lastAeadWriteCtx := aead }
  | .current => { ssl with aeadWriteCtx := aead }

def setWriteSequence (ssl : DtlsWriteState κ) (seq : SequenceNumber) :
    Dtls1UseEpoch → DtlsWriteState κ
  | .previous => { ssl with lastWriteSequence := seq }
  | .current => { ssl with writeSequence := seq }

def dtlsMaxSealOverhead (ssl : DtlsWriteState κ) (useEpoch : Dtls1UseEpoch) : Nat :=
  DTLS1_RT_HEADER_LENGTH + (getWriteAead ssl useEpoch).maxOverhead

def dtlsSealPrefixLen (ssl : DtlsWriteState κ) (useEpoch : Dtls1UseEpoch) : Nat :=
  DTLS1_RT_HEADER_LENGTH + (getWriteAead ssl useEpoch).explicitNonceLen

def dtlsRecordNumber (ssl : DtlsWriteState κ) (useEpoch : Dtls1UseEpoch) : Bytes :=
  cbbAddU16 (if useEpoch = .previous then ssl.wEpoch - 1 else ssl.wEpoch) ++
    (getWriteSequence ssl useEpoch).bytes.drop 2

/-- The record version is that of the current context, also for a record of the previous epoch. -/
def dtlsSealRecordCall (ssl : DtlsWriteState κ) (maxOut : Nat) (type : UInt8) (input : Bytes)
    (useEpoch : Dtls1UseEpoch) : Option (Bytes × Option Bytes × SslAeadContext κ) := do
  let aead := getWriteAead ssl useEpoch
  let recordVersion := ssl.aeadWriteCtx.recordVersion
  if maxOut < DTLS1_RT_HEADER_LENGTH then none
  let ciphertextLen ← aead.ciphertextLen input.length 0
  let seqnum := dtlsRecordNumber ssl useEpoch
  let header := cbbAddU8 type ++ cbbAddU16 recordVersion ++ seqnum ++ beBytes 2 ciphertextLen
  return (header, aead.sealInto (maxOut - DTLS1_RT_HEADER_LENGTH) type recordVersion seqnum
    header input)

def dtlsSealRecord (ssl : DtlsWriteState κ) (maxOut : Nat) (type : UInt8) (input : Bytes)
    (useEpoch : Dtls1UseEpoch) : Option Bytes × DtlsWriteState κ :=
  match dtlsSealRecordCall ssl maxOut type input useEpoch with
  | none => (none, ssl)
  | some (_, none, aead) => (none, setWriteAead ssl aead useEpoch)
  | some (header, some sealed, aead) =>
    let (ok, seq) := (getWriteSequence ssl useEpoch).update 2
    let ssl := setWriteSequence (setWriteAead ssl aead useEpoch) seq useEpoch
    if ok then (some (header ++ sealed), ssl) else (none, ssl)

@[simp] theorem length_dtlsRecordNumber (ssl : DtlsWriteState κ) (useEpoch : Dtls1UseEpoch) :
    (dtlsRecordNumber ssl useEpoch).length = 8 := by
  simp [dtlsRecordNumber, cbbAddU16, (getWriteSequence ssl useEpoch).length_eq]

theorem dtlsSealRecord_length {ssl ssl' : DtlsWriteState κ} {maxOut : Nat} {type : UInt8}
    {input record : Bytes} {useEpoch : Dtls1UseEpoch}
    (h : dtlsSealRecord ssl maxOut type input useEpoch = (some record, ssl')) :
    record.length ≤ maxOut := by
  unfold dtlsSealRecord at h
  split at h
  · cases h
  · cases h
  rename_i header sealed aead hcall
  dsimp only at h
  split at h
  · cases h
    unfold dtlsSealRecordCall at hcall
    dsimp only at hcall
    split at hcall
    · cases hcall
    rename_i hroom
    obtain ⟨ciphertextLen, -, hcall⟩ := Option.bind_eq_some_iff.mp hcall
    simp only [Option.pure_def, Option.some.injEq, Prod.mk.injEq] at hcall
    obtain ⟨rfl, hseal⟩ := hcall
    have hlength := (SslAeadContext.sealInto_length (length_dtlsRecordNumber ssl useEpoch)
      hseal).1
    simp only [length_append, cbbAddU8, cbbAddU16, length_beBytes, length_singleton,
      length_dtlsRecordNumber]
    unfold DTLS1_RT_HEADER_LENGTH at hroom hlength
    omega
  · cases h

/-! ### The numbers that records are sealed under -/

/-- One call of `SealScatter` or `Seal`: the sequence number, whether the cipher
    sealed, and whether the update after it reported that the counter wrapped. -/
structure SealInvocation where
  number : Nat
  sealedOk : Bool
  wrapped : Bool
deriving DecidableEq, Repr

def doSealRecordInvocation : List SealInvocation :=
  match doSealRecordCall ssl type input with
  | none => []
  | some (_, result, _) =>
    [{ number := ssl.writeSequence.number 0, sealedOk := result.isSome
       wrapped := result.isSome && !(ssl.writeSequence.update 0).1 }]

def dtlsSealRecordInvocation (ssl : DtlsWriteState κ) (maxOut : Nat) (type : UInt8)
    (input : Bytes) (useEpoch : Dtls1UseEpoch) : List SealInvocation :=
  match dtlsSealRecordCall ssl maxOut type input useEpoch with
  | none => []
  | some (_, result, _) =>
    [{ number := (getWriteSequence ssl useEpoch).number 2, sealedOk := result.isSome
       wrapped := result.isSome && !((getWriteSequence ssl useEpoch).update 2).1 }]

/-- As long as no update has reported a wrap, a number lies above all those that
    were sealed with before it. -/
def NumbersAscend (log : List SealInvocation) : Prop :=
  ∀ before later after, log = before ++ later :: after →
    (∀ earlier ∈ before, earlier.wrapped = false) →
    ∀ earlier ∈ before, earlier.sealedOk = true → earlier.number < later.number

/-- The invariant: the log ascends, and the counter is above it. -/
structure Ascending (log : List SealInvocation) (counter : Nat) : Prop where
  ascend : NumbersAscend log
  below : (∀ earlier ∈ log, earlier.wrapped = false) →
    ∀ earlier ∈ log, earlier.sealedOk = true → earlier.number < counter

variable {log : List SealInvocation}

theorem Ascending.invoke {counter next : Nat}
    (h : Ascending log counter) {later : SealInvocation} (hnumber : later.number = counter)
    (hfailed : later.sealedOk = false → next = counter)
    (hsealed : later.sealedOk = true → later.wrapped = false → next = counter + 1) :
    Ascending (log ++ [later]) next := by
  refine ⟨?_, ?_⟩
  · intro before current after hsplit hunwrapped earlier hearlier hok
    rcases append_eq_append_iff.mp hsplit with ⟨as, rfl, hrest⟩ | ⟨bs, rfl, hrest⟩
    · -- the split point is the new entry
      cases as with
      | nil =>
        simp only [nil_append, List.cons.injEq] at hrest
        rw [append_nil] at hunwrapped hearlier
        rw [← hrest.1, hnumber]
        exact h.below hunwrapped earlier hearlier hok
      | cons a as => simp at hrest
    · cases bs with
      | nil =>
        simp only [nil_append, List.cons.injEq] at hrest
        rw [hrest.1, hnumber]
        exact h.below (by simpa using hunwrapped) earlier (by simpa using hearlier) hok
      | cons b bs =>
        simp only [cons_append, List.cons.injEq] at hrest
        rw [hrest.1]
        exact h.ascend before b bs rfl hunwrapped earlier hearlier hok
  · intro hunwrapped earlier hearlier hok
    have hlog : ∀ e ∈ log, e.wrapped = false := fun e he => hunwrapped e (by simp [he])
    have hlater : later.wrapped = false := hunwrapped later (by simp)
    rcases mem_append.mp hearlier with hold | hnew
    · have hlt := h.below hlog earlier hold hok
      cases hsealedOk : later.sealedOk with
      | false => rw [hfailed hsealedOk]; exact hlt
      | true => rw [hsealed hsealedOk hlater]; omega
    · rw [mem_singleton] at hnew
      subst hnew
      rw [hsealed hok hlater]
      omega

theorem Ascending.advance {seq : SequenceNumber} {skip : Nat}
    (hskip : skip ≤ 8) (h : Ascending log (seq.number skip)) :
    Ascending (log ++ [{ number := seq.number skip, sealedOk := true
                         wrapped := !(seq.update skip).1 }])
      ((seq.update skip).2.number skip) := by
  refine h.invoke rfl (fun hfalse => by cases hfalse) fun _ hunwrapped => ?_
  rcases seq.number_update hskip with ⟨-, hnext⟩ | ⟨hwrap, -, -⟩
  · exact hnext
  · rw [hwrap] at hunwrapped
    cases hunwrapped

theorem doSealRecord_ascending {ssl : SealState κ}
    (h : Ascending log (ssl.writeSequence.number 0)) (type : UInt8) (input : Bytes) :
    Ascending (log ++ doSealRecordInvocation ssl type input)
      ((doSealRecord ssl type input).2.writeSequence.number 0) := by
  unfold doSealRecordInvocation doSealRecord
  cases doSealRecordCall ssl type input with
  | none => rwa [append_nil]
  | some call =>
    obtain ⟨header, result, aead⟩ := call
    cases result with
    | none => exact h.invoke rfl (fun _ => rfl) (fun hfalse => by cases hfalse)
    | some parts =>
      have hnext := h.advance (Nat.zero_le 8)
      dsimp only
      split <;> exact hnext

theorem dtlsSealRecord_ascending {log : Dtls1UseEpoch → List SealInvocation}
    {ssl : DtlsWriteState κ}
    (h : ∀ epoch, Ascending (log epoch) ((getWriteSequence ssl epoch).number 2))
    (maxOut : Nat) (type : UInt8) (input : Bytes) (useEpoch epoch : Dtls1UseEpoch) :
    Ascending (log epoch ++ if epoch = useEpoch then
        dtlsSealRecordInvocation ssl maxOut type input useEpoch else [])
      ((getWriteSequence (dtlsSealRecord ssl maxOut type input useEpoch).2 epoch).number 2) := by
  unfold dtlsSealRecordInvocation dtlsSealRecord
  cases dtlsSealRecordCall ssl maxOut type input useEpoch with
  | none => simpa using h epoch
  | some call =>
    obtain ⟨header, result, aead⟩ := call
    cases result with
    | none =>
      have hsame : getWriteSequence (setWriteAead ssl aead useEpoch) epoch =
          getWriteSequence ssl epoch := by cases useEpoch <;> cases epoch <;> rfl
      dsimp only
      rw [hsame]
      split
      · rename_i hepoch
        subst hepoch
        exact (h epoch).invoke rfl (fun _ => rfl) (fun hfalse => by cases hfalse)
      · simpa using h epoch
    | some sealed =>
      have hseq : getWriteSequence (setWriteSequence (setWriteAead ssl aead useEpoch)
          ((getWriteSequence ssl useEpoch).update 2).2 useEpoch) epoch =
          if epoch = useEpoch then ((getWriteSequence ssl useEpoch).update 2).2
          else getWriteSequence ssl epoch := by cases useEpoch <;> cases epoch <;> rfl
      have hstate : ∀ ok : Bool, ∀ (record : Bytes) (after : DtlsWriteState κ),
          (if ok then (some record, after) else (none, after)).2 = after := by
        intro ok record after
        cases ok <;> rfl
      dsimp only
      rw [hstate, hseq]
      split
      · rename_i hepoch
        subst hepoch
        exact (h epoch).advance (by decide)
      · simpa using h epoch

structure DtlsSealCall where
  maxOut : Nat
  type : UInt8
  input : Bytes
  useEpoch : Dtls1UseEpoch

structure TlsSealRun (κ : Type) where
  ssl : SealState κ
  log : List SealInvocation

def TlsSealRun.call (run : TlsSealRun κ) (call : UInt8 × Bytes) : TlsSealRun κ :=
  { ssl := (doSealRecord run.ssl call.1 call.2).2
    log := run.log ++ doSealRecordInvocation run.ssl call.1 call.2 }

/-- The invocations of a sequence of `do_seal_record` calls. -/
def tlsSealLog (calls : List (UInt8 × Bytes)) : List SealInvocation :=
  (calls.foldl TlsSealRun.call { ssl, log := [] }).log

/-- A run of DTLS sealing calls between two key changes, with the invocations made
    under the current and under the previous key. -/
structure DtlsSealRun (κ : Type) where
  ssl : DtlsWriteState κ
  log : Dtls1UseEpoch → List SealInvocation

def DtlsSealRun.call (run : DtlsSealRun κ) (call : DtlsSealCall) : DtlsSealRun κ :=
  { ssl := (dtlsSealRecord run.ssl call.maxOut call.type call.input call.useEpoch).2
    log := fun epoch => run.log epoch ++ if epoch = call.useEpoch then
      dtlsSealRecordInvocation run.ssl call.maxOut call.type call.input call.useEpoch else [] }

/-- The invocations of a sequence of `dtls_seal_record` calls, under each key. -/
def dtlsSealLog (ssl : DtlsWriteState κ) (calls : List DtlsSealCall) :
    Dtls1UseEpoch → List SealInvocation :=
  (calls.foldl DtlsSealRun.call { ssl, log := fun _ => [] }).log

theorem ascending_nil (counter : Nat) : Ascending [] counter := by
  refine ⟨?_, by simp⟩
  intro before later after hsplit
  simp at hsplit

/-- **Numbers are not sealed with twice.**  In every run of sealing calls under one
    key, whichever of them succeed or fail, an invocation made before any update
    reported a wrap has a number above those of all earlier invocations that
    sealed.  So a number that comes again belongs to an invocation that failed. -/
theorem seal_numbers_ascend : (∀ (ssl : SealState κ) (calls : List (UInt8 × Bytes)),
      NumbersAscend (tlsSealLog ssl calls)) ∧
    (∀ (ssl : DtlsWriteState κ) (calls : List DtlsSealCall) (key : Dtls1UseEpoch),
      NumbersAscend (dtlsSealLog ssl calls key)) := by
  refine ⟨fun ssl calls => ?_, fun ssl calls key => ?_⟩
  · exact (List.foldlRecOn calls TlsSealRun.call
      (motive := fun run => Ascending run.log (run.ssl.writeSequence.number 0))
      (b := { ssl, log := [] }) (ascending_nil _)
      (fun run h call _ => doSealRecord_ascending h call.1 call.2)).ascend
  · exact (List.foldlRecOn calls DtlsSealRun.call
      (motive := fun run => ∀ epoch, Ascending (run.log epoch)
        ((getWriteSequence run.ssl epoch).number 2))
      (b := { ssl, log := fun _ => [] }) (fun _ => ascending_nil _)
      (fun run h call _ epoch =>
        dtlsSealRecord_ascending h call.maxOut call.type call.input call.useEpoch epoch)
      key).ascend

def EvpAead.copying (works : Bool) : EvpAead Unit where
  maxOverhead := 0
  tagLen := fun _ extraInLen => some extraInLen
  sealScatter := fun ctx _ body extraIn _ => (if works then some (body, extraIn) else none, ctx)
  openAead := fun _ _ _ _ => none
  randBytes := fun ctx _ => (none, ctx)
  tagLen_le := by
    rintro _ _ _ ⟨⟩
    exact Nat.le_add_left _ _
  sealScatter_length := by
    intro _ _ _ _ _ _ _ _ h
    cases works with
    | false => simp at h
    | true =>
      simp only [if_true, Prod.mk.injEq, Option.some.injEq] at h
      obtain ⟨⟨rfl, rfl⟩, -⟩ := h
      exact ⟨rfl, rfl⟩
  randBytes_length := fun h => EvpAead.unset.randBytes_length h

def copyingAead (works : Bool) : SslAeadContext Unit where
  isNullCipher := false
  version := TLS1_2_VERSION
  isDtls := false
  fixedNonce := List.replicate 12 0
  variableNonceLen := 8
  variableNonceIncludedInRecord := false
  randomVariableNonce := false
  xorFixedNonce := true
  omitLengthInAd := false
  adIsHeader := false
  isBlockCipher := false
  recordSplitLen := 0
  evp := EvpAead.copying works
  ctx := ()
  null_has_no_nonce := fun h => by cases h
  sequence_nonce_len := fun _ _ => rfl
  split_len := fun _ h => by cases h

def copyingSealState (works : Bool) (seq : SequenceNumber) : SealState Unit where
  aeadWriteCtx := copyingAead works
  writeSequence := seq
  cbcRecordSplitting := false

theorem tlsSealRun_copying (seq : SequenceNumber) (log : List SealInvocation) :
    TlsSealRun.call { ssl := copyingSealState true seq, log } (SSL3_RT_APPLICATION_DATA, []) =
      { ssl := copyingSealState true (seq.update 0).2
        log := log ++ [{ number := seq.number 0, sealedOk := true
                         wrapped := !(seq.update 0).1 }] } := by
  have hcall : ∃ header parts, doSealRecordCall (copyingSealState true seq)
      SSL3_RT_APPLICATION_DATA [] = some (header, some parts, copyingAead true) := ⟨_, _, rfl⟩
  obtain ⟨header, ⟨nonce, out, suffix⟩, hcall⟩ := hcall
  unfold TlsSealRun.call doSealRecord doSealRecordInvocation
  dsimp only
  rw [hcall]
  dsimp only
  congr 1
  split <;> rfl

/-- The number and the wrap flag of the `i`-th record sealed under one key. -/
def nthInvocation (i : Nat) : SealInvocation :=
  { number := i % 2 ^ 64, sealedOk := true, wrapped := (i + 1) % 2 ^ 64 == 0 }

theorem tlsSealRun_copying_replicate (n : Nat) :
    ∃ seq : SequenceNumber, seq.number 0 = n % 2 ^ 64 ∧
      (List.replicate n (SSL3_RT_APPLICATION_DATA, [])).foldl TlsSealRun.call
        { ssl := copyingSealState true SequenceNumber.zeroed, log := [] } =
      { ssl := copyingSealState true seq, log := (List.range n).map nthInvocation } := by
  induction n with
  | zero => exact ⟨SequenceNumber.zeroed, by decide, rfl⟩
  | succ n ih =>
    obtain ⟨seq, hnumber, hrun⟩ := ih
    have hnext : (seq.update 0).2.number 0 = (n + 1) % 2 ^ 64 ∧
        (!(seq.update 0).1) = ((n + 1) % 2 ^ 64 == 0) := by
      have hlt := (seq.update 0).2.number_lt 0
      norm_num at hlt
      rcases seq.number_update (Nat.zero_le 8) with ⟨hok, hnext⟩ | ⟨hwrap, hnext, hfull⟩
      · rw [hok, hnext]
        rw [hnext] at hlt
        refine ⟨by omega, ?_⟩
        symm
        rw [Bool.not_true, beq_eq_false_iff_ne]
        omega
      · rw [hwrap, hnext]
        norm_num at hfull
        refine ⟨by omega, ?_⟩
        symm
        rw [Bool.not_false, beq_iff_eq]
        omega
    refine ⟨(seq.update 0).2, hnext.1, ?_⟩
    rw [replicate_succ', foldl_append, hrun, foldl_cons, foldl_nil,
      tlsSealRun_copying, range_succ, map_append, hnumber, hnext.2]
    rfl

/-- **Numbers repeat** in two ways.  An invocation that fails leaves the counter where it is, so the
    next one is made with the same number.  And nothing stops the calls after the counter has
    wrapped: the record after the last number is sealed with number zero again. -/
theorem seal_numbers_repeat :
    (∃ calls, tlsSealLog (copyingSealState false SequenceNumber.zeroed) calls =
      [{ number := 0, sealedOk := false, wrapped := false },
       { number := 0, sealedOk := false, wrapped := false }]) ∧
    (∃ calls between, tlsSealLog (copyingSealState true SequenceNumber.zeroed) calls =
      { number := 0, sealedOk := true, wrapped := false } :: (between ++
        [{ number := 2 ^ 64 - 1, sealedOk := true, wrapped := true },
         { number := 0, sealedOk := true, wrapped := false }])) := by
  refine ⟨⟨[(SSL3_RT_APPLICATION_DATA, []), (SSL3_RT_APPLICATION_DATA, [])], by decide⟩, ?_⟩
  obtain ⟨m, hm⟩ : ∃ m, m + 2 = 2 ^ 64 := ⟨2 ^ 64 - 2, by norm_num⟩
  obtain ⟨seq, -, hrun⟩ := tlsSealRun_copying_replicate (m + 3)
  refine ⟨List.replicate (m + 3) (SSL3_RT_APPLICATION_DATA, []),
    ((List.range m).map Nat.succ).map nthInvocation, ?_⟩
  have hfirst : nthInvocation 0 = { number := 0, sealedOk := true, wrapped := false } := by
    decide
  have hlast : nthInvocation (m + 1) =
      { number := 2 ^ 64 - 1, sealedOk := true, wrapped := true } := by
    have hnumber : m + 1 = 2 ^ 64 - 1 := by omega
    rw [hnumber]
    decide
  have hagain : nthInvocation (m + 2) = { number := 0, sealedOk := true, wrapped := false } := by
    rw [hm]
    decide
  rw [tlsSealLog, hrun]
  dsimp only
  rw [range_succ, range_succ, range_succ_eq_map]
  simp [hfirst, hlast, hagain]

end AwsLc
