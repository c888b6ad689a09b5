import AwsLc.Asn1Fields
import AwsLc.SslCipher

/-!
# Serializing a session (`ssl_asn1.cc`)

`SSL_SESSION_to_bytes_full` writes seven elements that are always there, and optional elements with
ascending tags.  A field with its default value is not written, so that `SSL_SESSION_parse` has to
supply the same default.  Allocation failures are left out, and `SSL_X509_METHOD` is a parameter.
-/

namespace AwsLc

open List Option Nat

/-! ### The session -/

def SSL_MAX_MASTER_KEY_LENGTH : Nat := 48
def SSL3_MAX_SSL_SESSION_ID_LENGTH : Nat := 32
def SSL_MAX_SID_CTX_LENGTH : Nat := 32
def SHA256_DIGEST_LENGTH : Nat := 32

def X509_V_OK : Int64 := 0

/-- The fields of an `SSL_SESSION` that are serialized. -/
structure SslSession where
  sslVersion : UInt16
  groupId : UInt16
  peerSignatureAlgorithm : UInt16
  secret : BoundedBytes SSL_MAX_MASTER_KEY_LENGTH
  sessionId : BoundedBytes SSL3_MAX_SSL_SESSION_ID_LENGTH
  sidCtx : BoundedBytes SSL_MAX_SID_CTX_LENGTH
  pskIdentity : Option CString
  /-- the certificate chain of the peer, a null pointer or a stack -/
  certs : Option (List Bytes)
  verifyResult : Int64
  timeout : UInt32
  authTimeout : UInt32
  time : UInt64
  cipher : Option SslCipher
  ticket : Bytes
  signedCertTimestampList : Option Bytes
  ocspResponse : Option Bytes
  peerSha256 : FixedBytes SHA256_DIGEST_LENGTH
  originalHandshakeHash : BoundedBytes EVP_MAX_MD_SIZE
  ticketLifetimeHint : UInt32
  ticketAgeAdd : UInt32
  ticketMaxEarlyData : UInt32
  earlyAlpn : Bytes
  localApplicationSettings : Bytes
  peerApplicationSettings : Bytes
  extendedMasterSecret : Bool
  peerSha256Valid : Bool
  ticketAgeAddValid : Bool
  isServer : Bool
  isQuic : Bool
  hasApplicationSettings : Bool
  quicEarlyDataContext : Bytes

open SslSession

variable (session : SslSession)

def SslSession.certList : List Bytes := session.certs.getD []

structure SslX509Method where
  sessionCacheObjects : SslSession → Bool

def sslNoopX509Method : SslX509Method := ⟨fun _ => true⟩

/-! ### Writing -/

def kVersion : UInt64 := 1

def kTimeTag : UInt32 := contextTag 1
def kTimeoutTag : UInt32 := contextTag 2
def kPeerTag : UInt32 := contextTag 3
def kSessionIDContextTag : UInt32 := contextTag 4
def kVerifyResultTag : UInt32 := contextTag 5
def kHostNameTag : UInt32 := contextTag 6
def kPSKIdentityTag : UInt32 := contextTag 8
def kTicketLifetimeHintTag : UInt32 := contextTag 9
def kTicketTag : UInt32 := contextTag 10
def kPeerSHA256Tag : UInt32 := contextTag 13
def kOriginalHandshakeHashTag : UInt32 := contextTag 14
def kSignedCertTimestampListTag : UInt32 := contextTag 15
def kOCSPResponseTag : UInt32 := contextTag 16
def kExtendedMasterSecretTag : UInt32 := contextTag 17
def kGroupIDTag : UInt32 := contextTag 18
def kCertChainTag : UInt32 := contextTag 19
def kTicketAgeAddTag : UInt32 := contextTag 21
def kIsServerTag : UInt32 := contextTag 22
def kPeerSignatureAlgorithmTag : UInt32 := contextTag 23
def kTicketMaxEarlyDataTag : UInt32 := contextTag 24
def kAuthTimeoutTag : UInt32 := contextTag 25
def kEarlyALPNTag : UInt32 := contextTag 26
def kIsQuicTag : UInt32 := contextTag 27
def kQuicEarlyDataContextTag : UInt32 := contextTag 28
def kLocalALPSTag : UInt32 := contextTag 29
def kPeerALPSTag : UInt32 := contextTag 30

def uintContents (present : Bool) (value : UInt64) : Option (Option Bytes) :=
  if present then (cbbAddAsn1Uint64 value).map some else some none

/-- The contents of the flag that is written, as `false`, for a client. -/
def isServerContents (isServer : Bool) : Option (Option Bytes) :=
  if isServer then some none else (cbbAddAsn1Bool false).map some

/-- The elements that are always there, in front of `fields`. -/
def sslSessionHeadToBytes (cipher : SslCipher) (forTicket : Bool)
    (fields : Bytes) : Option Bytes := do
  let version ← cbbAddAsn1Uint64 kVersion
  let sslVersion ← cbbAddAsn1Uint64 session.sslVersion.toUInt64
  let cipher ← cbbAddAsn1 CBS_ASN1_OCTETSTRING (cbbAddU16 (cipher.id &&& 0xffff).toUInt16)
  -- the session ID is irrelevant for a session ticket
  let sessionId ← cbbAddAsn1OctetString (if forTicket then [] else session.sessionId.bytes)
  let secret ← cbbAddAsn1OctetString session.secret.bytes
  let time ← cbbAddAsn1Uint64 session.time
  let time ← cbbAddAsn1 kTimeTag time
  let timeout ← cbbAddAsn1Uint64 session.timeout.toUInt64
  let timeout ← cbbAddAsn1 kTimeoutTag timeout
  return version ++ (sslVersion ++ (cipher ++ (sessionId ++ (secret ++ (time ++ (timeout ++
    fields))))))

def sslSessionPeerFields : Option (List OptionalField) := do
  -- the peer certificate is only serialized if its SHA-256 is not
  let peer := if session.peerSha256Valid then none else session.certList.head?
  let sidCtx ← cbbAddAsn1OctetString session.sidCtx.bytes
  let verifyResult ←
    uintContents (session.verifyResult ≠ X509_V_OK) session.verifyResult.toUInt64
  return [(kPeerTag, peer), (kSessionIDContextTag, some sidCtx), (kVerifyResultTag, verifyResult)]

def sslSessionTicketFields (forTicket : Bool) :
    Option (List OptionalField) := do
  let pskIdentity ← (session.pskIdentity.map CString.bytes).mapM cbbAddAsn1OctetString
  let ticketLifetimeHint ←
    uintContents (session.ticketLifetimeHint > 0) session.ticketLifetimeHint.toUInt64
  let ticket ← (if forTicket then none else nonemptyBytes session.ticket).mapM
    cbbAddAsn1OctetString
  let peerSha256 ← (if session.peerSha256Valid then some session.peerSha256.bytes else none).mapM
    cbbAddAsn1OctetString
  let originalHandshakeHash ←
    (nonemptyBytes session.originalHandshakeHash.bytes).mapM cbbAddAsn1OctetString
  let signedCertTimestampList ← session.signedCertTimestampList.mapM cbbAddAsn1OctetString
  let ocspResponse ← session.ocspResponse.mapM cbbAddAsn1OctetString
  return [(kPSKIdentityTag, pskIdentity), (kTicketLifetimeHintTag, ticketLifetimeHint),
    (kTicketTag, ticket), (kPeerSHA256Tag, peerSha256),
    (kOriginalHandshakeHashTag, originalHandshakeHash),
    (kSignedCertTimestampListTag, signedCertTimestampList), (kOCSPResponseTag, ocspResponse)]

def sslSessionExtensionFields : Option (List OptionalField) := do
  let extendedMasterSecret ← flagContents session.extendedMasterSecret
  let groupId ← uintContents (session.groupId > 0) session.groupId.toUInt64
  -- the certificate chain is only serialized if the SHA-256 of the leaf is not
  let certChain := if ¬session.peerSha256Valid ∧ session.certList.length ≥ 2 then
      some session.certList.tail.flatten
    else none
  let ticketAgeAdd ←
    (if session.ticketAgeAddValid then some (cbbAddU32 session.ticketAgeAdd) else none).mapM
      (cbbAddAsn1 CBS_ASN1_OCTETSTRING)
  let isServer ← isServerContents session.isServer
  let peerSignatureAlgorithm ←
    uintContents (session.peerSignatureAlgorithm ≠ 0) session.peerSignatureAlgorithm.toUInt64
  let ticketMaxEarlyData ←
    uintContents (session.ticketMaxEarlyData ≠ 0) session.ticketMaxEarlyData.toUInt64
  let authTimeout ←
    uintContents (session.timeout ≠ session.authTimeout) session.authTimeout.toUInt64
  let earlyAlpn ← (nonemptyBytes session.earlyAlpn).mapM cbbAddAsn1OctetString
  let isQuic ← flagContents session.isQuic
  let quicEarlyDataContext ←
    (nonemptyBytes session.quicEarlyDataContext).mapM cbbAddAsn1OctetString
  let localAlps ← (if session.hasApplicationSettings then some session.localApplicationSettings
    else none).mapM cbbAddAsn1OctetString
  let peerAlps ← (if session.hasApplicationSettings then some session.peerApplicationSettings
    else none).mapM cbbAddAsn1OctetString
  return [(kExtendedMasterSecretTag, extendedMasterSecret), (kGroupIDTag, groupId),
    (kCertChainTag, certChain), (kTicketAgeAddTag, ticketAgeAdd), (kIsServerTag, isServer),
    (kPeerSignatureAlgorithmTag, peerSignatureAlgorithm),
    (kTicketMaxEarlyDataTag, ticketMaxEarlyData), (kAuthTimeoutTag, authTimeout),
    (kEarlyALPNTag, earlyAlpn), (kIsQuicTag, isQuic),
    (kQuicEarlyDataContextTag, quicEarlyDataContext), (kLocalALPSTag, localAlps),
    (kPeerALPSTag, peerAlps)]

def sslSessionToBytesFull (forTicket : Bool) : Option Bytes := do
  let cipher ← session.cipher
  let peer ← sslSessionPeerFields session
  let ticket ← sslSessionTicketFields session forTicket
  let extensions ← sslSessionExtensionFields session
  let fields ← cbbAddFields (peer ++ (ticket ++ extensions))
  let child ← sslSessionHeadToBytes session cipher forTicket fields
  cbbAddAsn1 CBS_ASN1_SEQUENCE child

/-! ### Reading -/

variable (tag : UInt32)
variable (cbs : Bytes)

def sslSessionParseString : Option (Option CString × Bytes) :=
  parseOptionalString tag cbs

def sslSessionParseOctetString : Option (Bytes × Bytes) :=
  ssl3StateParseOctetString tag cbs

def sslSessionParseCryptoBuffer : Option (Option Bytes × Bytes) := do
  if ¬cbsPeekAsn1Tag cbs tag then some (none, cbs)
  else
    let (child, cbs) ← cbsGetAsn1 tag cbs
    let (value, childRest) ← cbsGetAsn1 CBS_ASN1_OCTETSTRING child
    if childRest ≠ [] then none else some (some value, cbs)

def sslSessionParseBoundedOctetString (maxOut : Nat) (tag : UInt32) (cbs : Bytes) :
    Option (BoundedBytes maxOut × Bytes) := do
  let (value, cbs) ← cbsGetOptionalAsn1OctetString tag cbs
  if h : (value.getD []).length > maxOut then none
  else some (⟨value.getD [], Nat.le_of_not_lt h⟩, cbs)

def sslSessionParseUint (maxValue : UInt64) (tag : UInt32) (defaultValue : UInt64) (cbs : Bytes) :
    Option (UInt64 × Bytes) := do
  let (value, cbs) ← cbsGetOptionalAsn1Uint64 tag defaultValue cbs
  if value > maxValue then none else some (value, cbs)

def sslSessionParseLong (defaultValue : Int64) (cbs : Bytes) : Option (Int64 × Bytes) := do
  let (value, cbs) ← sslSessionParseUint Int64.maxValue.toUInt64 tag defaultValue.toUInt64 cbs
  return (value.toInt64, cbs)

def sslSessionParseU32 (defaultValue : UInt32) (cbs : Bytes) : Option (UInt32 × Bytes) := do
  let (value, cbs) ← sslSessionParseUint 0xffffffff tag defaultValue.toUInt64 cbs
  return (value.toUInt32, cbs)

def sslSessionParseU16 (defaultValue : UInt16) (cbs : Bytes) : Option (UInt16 × Bytes) := do
  let (value, cbs) ← sslSessionParseUint 0xffff tag defaultValue.toUInt64 cbs
  return (value.toUInt16, cbs)

/-- An octet string of at most `cap` bytes. -/
def cbsGetBoundedBytes (cap : Nat) (cbs : Bytes) : Option (BoundedBytes cap × Bytes) := do
  let (out, rest) ← cbsGetAsn1 CBS_ASN1_OCTETSTRING cbs
  if h : out.length > cap then none else some (⟨out, Nat.le_of_not_lt h⟩, rest)

structure SessionHead where
  sslVersion : UInt16
  cipher : SslCipher
  sessionId : BoundedBytes SSL3_MAX_SSL_SESSION_ID_LENGTH
  secret : BoundedBytes SSL_MAX_MASTER_KEY_LENGTH
  time : UInt64
  timeout : UInt32

def sslSessionParseHead (session : Bytes) : Option (SessionHead × Bytes) := do
  let (version, session) ← cbsGetAsn1Uint64 session
  if version ≠ kVersion then none
  let (sslVersion, session) ← cbsGetAsn1Uint64 session
  if sslVersion > 0xffff then none
  let _ ← sslProtocolVersionFromWire sslVersion.toUInt16
  let (cipher, session) ← cbsGetAsn1 CBS_ASN1_OCTETSTRING session
  let (cipherValue, cipherRest) ← cbsGetU16 cipher
  if cipherRest ≠ [] then none
  let cipher ← sslGetCipherByValue cipherValue
  let (sessionId, session) ← cbsGetBoundedBytes SSL3_MAX_SSL_SESSION_ID_LENGTH session
  let (secret, session) ← cbsGetBoundedBytes SSL_MAX_MASTER_KEY_LENGTH session
  let (child, session) ← cbsGetAsn1 kTimeTag session
  let (time, _) ← cbsGetAsn1Uint64 child
  let (child, session) ← cbsGetAsn1 kTimeoutTag session
  let (timeout, _) ← cbsGetAsn1Uint64 child
  if timeout > 0xffffffff then none
  return ({
    sslVersion := sslVersion.toUInt16
    cipher, sessionId, secret, time
    timeout := timeout.toUInt32 }, session)

structure SessionTicket where
  peer : Option Bytes
  sidCtx : BoundedBytes SSL_MAX_SID_CTX_LENGTH
  verifyResult : Int64
  pskIdentity : Option CString
  ticketLifetimeHint : UInt32
  ticket : Bytes
  peerSha256 : Option (FixedBytes SHA256_DIGEST_LENGTH)
  originalHandshakeHash : BoundedBytes EVP_MAX_MD_SIZE
  signedCertTimestampList : Option Bytes
  ocspResponse : Option Bytes

def sslSessionParsePeerSha256 : Option (Option (FixedBytes SHA256_DIGEST_LENGTH) × Bytes) := do
  if ¬cbsPeekAsn1Tag cbs kPeerSHA256Tag then some (none, cbs)
  else
    let (child, cbs) ← cbsGetAsn1 kPeerSHA256Tag cbs
    let (peerSha256, childRest) ← cbsGetAsn1 CBS_ASN1_OCTETSTRING child
    if h : peerSha256.length ≠ SHA256_DIGEST_LENGTH ∨ childRest ≠ [] then none
    else some (some ⟨peerSha256, not_not.mp (not_or.mp h).1⟩, cbs)

def sslSessionParseTicket (session : Bytes) : Option (SessionTicket × Bytes) := do
  let (peer, session) ← cbsGetOptionalAsn1 kPeerTag session
  if peer = some [] then none
  let (sidCtx, session) ←
    sslSessionParseBoundedOctetString SSL_MAX_SID_CTX_LENGTH kSessionIDContextTag session
  let (verifyResult, session) ← sslSessionParseLong kVerifyResultTag X509_V_OK session
  -- skip the historical hostName field
  let (_, session) ← cbsGetOptionalAsn1 kHostNameTag session
  let (pskIdentity, session) ← sslSessionParseString kPSKIdentityTag session
  let (ticketLifetimeHint, session) ← sslSessionParseU32 kTicketLifetimeHintTag 0 session
  let (ticket, session) ← sslSessionParseOctetString kTicketTag session
  let (peerSha256, session) ← sslSessionParsePeerSha256 session
  let (originalHandshakeHash, session) ←
    sslSessionParseBoundedOctetString EVP_MAX_MD_SIZE kOriginalHandshakeHashTag session
  let (signedCertTimestampList, session) ←
    sslSessionParseCryptoBuffer kSignedCertTimestampListTag session
  let (ocspResponse, session) ← sslSessionParseCryptoBuffer kOCSPResponseTag session
  return ({
    peer, sidCtx, verifyResult, pskIdentity, ticketLifetimeHint, ticket, peerSha256
    originalHandshakeHash, signedCertTimestampList, ocspResponse }, session)

structure SessionExtensions where
  extendedMasterSecret : Bool
  groupId : UInt16
  certs : Option (List Bytes)
  ticketAgeAdd : Option UInt32
  isServer : Bool
  peerSignatureAlgorithm : UInt16
  ticketMaxEarlyData : UInt32
  authTimeout : UInt32
  earlyAlpn : Bytes
  isQuic : Bool
  quicEarlyDataContext : Bytes
  localAlps : Option Bytes
  peerAlps : Option Bytes

/-- The certificates of a chain.  A certificate is not empty, so that as many rounds as there
    are bytes are enough. -/
def sslSessionParseCertChain : (rounds : Nat) → (certChain : Bytes) → Option (List Bytes)
  | _, [] => some []
  | 0, _ :: _ => none
  | rounds + 1, first :: rest => do
    let ((_, _, cert), certChain) ← cbsGetAnyAsn1Element (first :: rest)
    if cert = [] then none
    let certs ← sslSessionParseCertChain rounds certChain
    return cert :: certs

def sslSessionParseCerts (peer certChain : Option Bytes) : Option (Option (List Bytes)) :=
  if certChain = some [] then none
  else
    match peer, certChain with
    | none, none => some none
    | none, some _ => none
    | some peer, certChain =>
      (sslSessionParseCertChain (certChain.getD []).length (certChain.getD [])).map fun certs =>
        some (peer :: certs)

def sslSessionParseTicketAgeAdd : Option (Option UInt32 × Bytes) := do
  let (ageAdd, cbs) ← cbsGetOptionalAsn1OctetString kTicketAgeAddTag cbs
  match ageAdd with
  | none => some (none, cbs)
  | some ageAdd =>
    let (value, ageAddRest) ← cbsGetU32 ageAdd
    if ageAddRest ≠ [] then none else some (some value, cbs)

def sslSessionParseExtensions (peer : Option Bytes) (timeout : UInt32) (session : Bytes) :
    Option (SessionExtensions × Bytes) := do
  let (extendedMasterSecret, session) ←
    cbsGetOptionalAsn1Bool kExtendedMasterSecretTag false session
  let (groupId, session) ← sslSessionParseU16 kGroupIDTag 0 session
  let (certChain, session) ← cbsGetOptionalAsn1 kCertChainTag session
  let certs ← sslSessionParseCerts peer certChain
  let (ticketAgeAdd, session) ← sslSessionParseTicketAgeAdd session
  let (isServer, session) ← cbsGetOptionalAsn1Bool kIsServerTag true session
  let (peerSignatureAlgorithm, session) ← sslSessionParseU16 kPeerSignatureAlgorithmTag 0 session
  let (ticketMaxEarlyData, session) ← sslSessionParseU32 kTicketMaxEarlyDataTag 0 session
  let (authTimeout, session) ← sslSessionParseU32 kAuthTimeoutTag timeout session
  let (earlyAlpn, session) ← sslSessionParseOctetString kEarlyALPNTag session
  let (isQuic, session) ← cbsGetOptionalAsn1Bool kIsQuicTag false session
  let (quicEarlyDataContext, session) ←
    sslSessionParseOctetString kQuicEarlyDataContextTag session
  let (localAlps, session) ← cbsGetOptionalAsn1OctetString kLocalALPSTag session
  let (peerAlps, session) ← cbsGetOptionalAsn1OctetString kPeerALPSTag session
  return ({
    extendedMasterSecret, groupId, certs, ticketAgeAdd, isServer, peerSignatureAlgorithm
    ticketMaxEarlyData, authTimeout, earlyAlpn, isQuic, quicEarlyDataContext, localAlps
    peerAlps }, session)

theorem length_zeroSha256 :
    (List.replicate SHA256_DIGEST_LENGTH (0 : UInt8)).length = SHA256_DIGEST_LENGTH :=
  length_replicate

/-- `peer_sha256` of a new session. -/
def zeroSha256 : FixedBytes SHA256_DIGEST_LENGTH :=
  ⟨List.replicate SHA256_DIGEST_LENGTH 0, length_zeroSha256⟩

def SslSession.ofParts (head : SessionHead) (ticket : SessionTicket)
    (extensions : SessionExtensions) : SslSession where
  sslVersion := head.sslVersion
  groupId := extensions.groupId
  peerSignatureAlgorithm := extensions.peerSignatureAlgorithm
  secret := head.secret
  sessionId := head.sessionId
  sidCtx := ticket.sidCtx
  pskIdentity := ticket.pskIdentity
  certs := extensions.certs
  verifyResult := ticket.verifyResult
  timeout := head.timeout
  authTimeout := extensions.authTimeout
  time := head.time
  cipher := some head.cipher
  ticket := ticket.ticket
  signedCertTimestampList := ticket.signedCertTimestampList
  ocspResponse := ticket.ocspResponse
  peerSha256 := ticket.peerSha256.getD zeroSha256
  originalHandshakeHash := ticket.originalHandshakeHash
  ticketLifetimeHint := ticket.ticketLifetimeHint
  ticketAgeAdd := extensions.ticketAgeAdd.getD 0
  ticketMaxEarlyData := extensions.ticketMaxEarlyData
  earlyAlpn := extensions.earlyAlpn
  localApplicationSettings := extensions.localAlps.getD []
  peerApplicationSettings := extensions.peerAlps.getD []
  extendedMasterSecret := extensions.extendedMasterSecret
  peerSha256Valid := ticket.peerSha256.isSome
  ticketAgeAddValid := extensions.ticketAgeAdd.isSome
  isServer := extensions.isServer
  isQuic := extensions.isQuic
  hasApplicationSettings := extensions.localAlps.isSome
  quicEarlyDataContext := extensions.quicEarlyDataContext

def sslSessionParse (x509Method : SslX509Method) (cbs : Bytes) : Option (SslSession × Bytes) := do
  let (session, cbs) ← cbsGetAsn1 CBS_ASN1_SEQUENCE cbs
  let (head, session) ← sslSessionParseHead session
  let (ticket, session) ← sslSessionParseTicket session
  let (extensions, session) ← sslSessionParseExtensions ticket.peer head.timeout session
  if session ≠ [] then none
  -- the two ALPS values and ALPN must be consistent
  if extensions.localAlps.isSome ≠ extensions.peerAlps.isSome ∨
      (extensions.localAlps.isSome ∧ extensions.earlyAlpn = []) then none
  let ret := ofParts head ticket extensions
  if x509Method.sessionCacheObjects ret then some (ret, cbs) else none

theorem toUInt64_le_u32 (value : UInt32) : value.toUInt64 ≤ 0xffffffff := by
  rw [UInt64.le_iff_toNat_le, UInt32.toNat_toUInt64]
  exact le_of_lt_succ value.toNat_lt

theorem toUInt64_le_u16 (value : UInt16) : value.toUInt64 ≤ 0xffff := by
  rw [UInt64.le_iff_toNat_le, UInt16.toNat_toUInt64]
  exact le_of_lt_succ value.toNat_lt

section Elements

variable {tag : UInt32} {bytes rest : Bytes} {child : Option Bytes}
  (h : cbsGetOptionalAsn1 tag bytes = some (child, rest))
include h

theorem sslSessionParseUint_eq {present : Bool} {value defaultValue maxValue : UInt64}
    (hchild : uintContents present value = some child)
    (hdefault : present = false → value = defaultValue) (hle : value ≤ maxValue) :
    sslSessionParseUint maxValue tag defaultValue bytes = some (value, rest) := by
  have hread : cbsGetOptionalAsn1Uint64 tag defaultValue bytes = some (value, rest) := by
    cases present with
    | false =>
      cases hchild
      rw [hdefault rfl]
      exact bind_of_eq_some h rfl
    | true =>
      rw [uintContents, if_pos rfl] at hchild
      obtain ⟨contents, hcontents, rfl⟩ := map_eq_some_iff.mp hchild
      exact cbsGetOptionalAsn1Uint64_eq defaultValue h hcontents
  refine bind_of_eq_some hread ?_
  exact if_neg (UInt64.not_lt.mpr hle)

theorem sslSessionParseLong_eq {value defaultValue : Int64}
    (hchild : uintContents (value ≠ defaultValue) value.toUInt64 = some child)
    (hvalue : 0 ≤ value) :
    sslSessionParseLong tag defaultValue bytes = some (value, rest) := by
  have hle : value.toUInt64 ≤ Int64.maxValue.toUInt64 := by
    have hlt := (int64_nonneg_iff value).mp hvalue
    have hmax : Int64.maxValue.toUInt64.toNat = 2 ^ 63 - 1 := rfl
    rw [UInt64.le_iff_toNat_le]
    omega
  have hdefault : decide (value ≠ defaultValue) = false →
      value.toUInt64 = defaultValue.toUInt64 := by
    intro hsame
    rw [not_not.mp (of_decide_eq_false hsame)]
  refine bind_of_eq_some (sslSessionParseUint_eq h hchild hdefault hle) ?_
  simp

theorem sslSessionParseU32_eq {present : Bool} {value defaultValue : UInt32}
    (hchild : uintContents present value.toUInt64 = some child)
    (hdefault : present = false → value = defaultValue) :
    sslSessionParseU32 tag defaultValue bytes = some (value, rest) := by
  refine bind_of_eq_some (sslSessionParseUint_eq h hchild
    (fun habsent => by rw [hdefault habsent]) (toUInt64_le_u32 value)) ?_
  simp

theorem sslSessionParseU16_eq {present : Bool} {value defaultValue : UInt16}
    (hchild : uintContents present value.toUInt64 = some child)
    (hdefault : present = false → value = defaultValue) :
    sslSessionParseU16 tag defaultValue bytes = some (value, rest) := by
  refine bind_of_eq_some (sslSessionParseUint_eq h hchild
    (fun habsent => by rw [hdefault habsent]) (toUInt64_le_u16 value)) ?_
  simp

theorem sslSessionParseBoundedOctetString_eq {maxOut : Nat} {value : BoundedBytes maxOut}
    {data : Option Bytes}
    (hchild : data.mapM cbbAddAsn1OctetString = some child) (hdata : data.getD [] = value.bytes) :
    sslSessionParseBoundedOctetString maxOut tag bytes = some (value, rest) := by
  refine bind_of_eq_some (cbsGetOptionalAsn1OctetString_eq h hchild) ?_
  dsimp only
  rw [dif_neg (by rw [hdata]; exact not_lt.mpr value.length_le)]
  congr

theorem cbsPeekAsn1Tag_octetString {value : Option Bytes}
    (hchild : value.mapM cbbAddAsn1OctetString = some child) :
    (cbsPeekAsn1Tag bytes tag = false ∧ value = none ∧ rest = bytes) ∨
      (cbsPeekAsn1Tag bytes tag = true ∧ ∃ data contents, value = some data ∧
        cbsGetAsn1 tag bytes = some (contents, rest) ∧
        cbsGetAsn1 CBS_ASN1_OCTETSTRING contents = some (data, [])) := by
  unfold cbsGetOptionalAsn1 at h
  cases hpeek : cbsPeekAsn1Tag bytes tag with
  | false =>
    rw [hpeek] at h
    cases h
    cases value with
    | none => exact Or.inl ⟨rfl, rfl, rfl⟩
    | some data =>
      obtain ⟨contents, -, hcontents⟩ := map_eq_some_iff.mp hchild
      cases hcontents
  | true =>
    rw [hpeek, if_pos rfl] at h
    split at h
    · cases h
    · next contents rest' hget =>
      cases h
      cases value with
      | none => cases hchild
      | some data =>
        obtain ⟨element, helement, hcontents⟩ := map_eq_some_iff.mp hchild
        cases hcontents
        have hread := cbsGetAsn1_cbbAddAsn1 tagReads_octetString helement []
        rw [append_nil] at hread
        exact Or.inr ⟨rfl, data, contents, rfl, hget, hread⟩

theorem sslSessionParseCryptoBuffer_eq {value : Option Bytes}
    (hchild : value.mapM cbbAddAsn1OctetString = some child) :
    sslSessionParseCryptoBuffer tag bytes = some (value, rest) := by
  unfold sslSessionParseCryptoBuffer
  rcases cbsPeekAsn1Tag_octetString h hchild with
    ⟨hpeek, rfl, rfl⟩ | ⟨hpeek, data, contents, rfl, hget, hdata⟩
  · rw [hpeek]
    rfl
  · rw [hpeek, if_neg (fun h => h rfl)]
    exact bind_of_eq_some hget (bind_of_eq_some hdata rfl)

omit h in
theorem sslSessionParsePeerSha256_eq {value : Option (FixedBytes SHA256_DIGEST_LENGTH)}
    (h : cbsGetOptionalAsn1 kPeerSHA256Tag bytes = some (child, rest))
    (hchild : (value.map FixedBytes.bytes).mapM cbbAddAsn1OctetString = some child) :
    sslSessionParsePeerSha256 bytes = some (value, rest) := by
  unfold sslSessionParsePeerSha256
  rcases cbsPeekAsn1Tag_octetString h hchild with
    ⟨hpeek, hvalue, rfl⟩ | ⟨hpeek, data, contents, hvalue, hget, hdata⟩
  · rw [hpeek, map_eq_none_iff.mp hvalue]
    rfl
  · obtain ⟨array, rfl, rfl⟩ := map_eq_some_iff.mp hvalue
    rw [hpeek, if_neg (fun h => h rfl)]
    refine bind_of_eq_some hget (bind_of_eq_some hdata ?_)
    exact dif_neg (not_or.mpr ⟨fun hne => hne array.length_eq, fun hne => hne rfl⟩)

omit h in
theorem sslSessionParseTicketAgeAdd_eq {value : Option UInt32}
    (h : cbsGetOptionalAsn1 kTicketAgeAddTag bytes = some (child, rest))
    (hchild : (value.map cbbAddU32).mapM cbbAddAsn1OctetString = some child) :
    sslSessionParseTicketAgeAdd bytes = some (value, rest) := by
  refine bind_of_eq_some (cbsGetOptionalAsn1OctetString_eq h hchild) ?_
  cases value with
  | none => rfl
  | some value =>
    have hvalue := cbsGetU32_cbbAddU32 value []
    rw [append_nil] at hvalue
    exact bind_of_eq_some hvalue rfl

theorem cbsGetOptionalAsn1Bool_isServer {isServer : Bool}
    (hchild : isServerContents isServer = some child) :
    cbsGetOptionalAsn1Bool tag true bytes = some (isServer, rest) := by
  cases isServer with
  | true =>
    cases hchild
    exact bind_of_eq_some h rfl
  | false =>
    rw [isServerContents, if_neg Bool.false_ne_true] at hchild
    obtain ⟨contents, hcontents, rfl⟩ := map_eq_some_iff.mp hchild
    exact cbsGetOptionalAsn1Bool_eq true h hcontents

end Elements

def IsDerElement (cert : Bytes) : Prop :=
  ∃ tag headerLen, cbsGetAnyAsn1Element cert = some ((tag, headerLen, cert), [])

theorem IsDerElement.ne_nil {cert : Bytes} (h : IsDerElement cert) : cert ≠ [] := by
  obtain ⟨tag, headerLen, h⟩ := h
  rintro rfl
  cases h

theorem IsDerElement.reads {cert : Bytes} (h : IsDerElement cert) (rest : Bytes) :
    ∃ tag headerLen, cbsGetAnyAsn1Element (cert ++ rest) = some ((tag, headerLen, cert), rest) := by
  obtain ⟨tag, headerLen, h⟩ := h
  obtain ⟨htag, -, hcontents⟩ := cbsGetAnyAsn1Element_iff.mp h
  exact ⟨tag, headerLen, cbsGetAnyAsn1Element_iff.mpr ⟨htag, rfl, hcontents⟩⟩

theorem sslSessionParseCertChain_flatten {certs : List Bytes}
    (hcerts : ∀ cert ∈ certs, IsDerElement cert) : ∀ rounds, certs.flatten.length ≤ rounds →
      sslSessionParseCertChain rounds certs.flatten = some certs := by
  induction certs with
  | nil =>
    intro rounds _
    cases rounds <;> rfl
  | cons cert certs ih =>
    intro rounds hrounds
    have hcert := hcerts cert mem_cons_self
    have hne := hcert.ne_nil
    obtain ⟨tag, headerLen, hread⟩ := hcert.reads certs.flatten
    have hrest := ih fun other hother => hcerts other (mem_cons_of_mem _ hother)
    rw [flatten_cons, length_append] at hrounds
    have hpos := length_pos_iff.mpr hne
    obtain ⟨rounds, rfl⟩ := exists_eq_succ_of_ne_zero (show rounds ≠ 0 by omega)
    rw [flatten_cons]
    rcases cert with _ | ⟨first, cert⟩
    · exact absurd rfl hne
    rw [cons_append, sslSessionParseCertChain]
    refine bind_of_eq_some hread ?_
    dsimp only
    rw [if_neg (cons_ne_nil _ _)]
    exact bind_of_eq_some (hrest rounds (by omega)) rfl

/-! ### The round trip -/

structure SslSession.Valid (session : SslSession) : Prop where
  version : (sslProtocolVersionFromWire session.sslVersion).isSome
  cipher : ∃ cipher ∈ kCiphers, session.cipher = some cipher
  verifyResult : 0 ≤ session.verifyResult
  certs : ∀ cert ∈ session.certList, IsDerElement cert
  peerSha256 : session.peerSha256Valid → session.certList = []
  earlyAlpn : session.hasApplicationSettings → session.earlyAlpn ≠ []

theorem length_nil_le (cap : Nat) : ([] : Bytes).length ≤ cap := zero_le cap

/-- What is left of a session that is written: a field that a flag declares invalid has the value of
    a new session, and so has an empty stack. -/
def SslSession.serialized (forTicket : Bool) : SslSession :=
  { session with
    sessionId := if forTicket then ⟨[], length_nil_le _⟩ else session.sessionId
    ticket := if forTicket then [] else session.ticket
    certs := if session.certList = [] then none else session.certs
    peerSha256 := if session.peerSha256Valid then session.peerSha256 else zeroSha256
    ticketAgeAdd := if session.ticketAgeAddValid then session.ticketAgeAdd else 0
    localApplicationSettings :=
      if session.hasApplicationSettings then session.localApplicationSettings else []
    peerApplicationSettings :=
      if session.hasApplicationSettings then session.peerApplicationSettings else [] }

def SslSession.head (cipher : SslCipher) (forTicket : Bool) : SessionHead where
  sslVersion := session.sslVersion
  cipher
  sessionId := (session.serialized forTicket).sessionId
  secret := session.secret
  time := session.time
  timeout := session.timeout

variable {bytes : Bytes}

theorem cbsGetBoundedBytes_reads {cap : Nat} {array : BoundedBytes cap}
    (h : cbbAddAsn1OctetString array.bytes = some bytes) :
    Reads (cbsGetBoundedBytes cap) bytes array := by
  intro rest
  refine bind_of_eq_some (cbsGetAsn1_cbbAddAsn1 tagReads_octetString h rest) ?_
  exact dif_neg (not_lt.mpr array.length_le)

variable {forTicket : Bool} {session : SslSession}

theorem sslSessionParseHead_toBytes {cipher : SslCipher} {fields : Bytes}
    (hversion : (sslProtocolVersionFromWire session.sslVersion).isSome)
    (hcipher : cipher ∈ kCiphers)
    (h : sslSessionHeadToBytes session cipher forTicket fields = some bytes) :
    sslSessionParseHead bytes = some (session.head cipher forTicket, fields) := by
  simp only [sslSessionHeadToBytes, bind_eq_bind, bind_eq_some_iff] at h
  obtain ⟨version, h₁, sslVersion, h₂, cipherBytes, h₃, sessionId, h₄, secret, h₅, time, h₆,
    timeElement, h₇, timeout, h₈, timeoutElement, h₉, h⟩ := h
  cases h
  obtain ⟨protocolVersion, hversion⟩ := isSome_iff_exists.mp hversion
  have hsslVersion := UInt64.not_lt.mpr (toUInt64_le_u16 session.sslVersion)
  have htimeout := UInt64.not_lt.mpr (toUInt64_le_u32 session.timeout)
  have hvalue := cbsGetU16_cbbAddU16 (cipher.id &&& 0xffff).toUInt16 []
  rw [append_nil] at hvalue
  have hsessionId : cbbAddAsn1OctetString (session.serialized forTicket).sessionId.bytes =
      some sessionId := by
    rw [← h₄, serialized]
    cases forTicket <;> rfl
  have htime := cbsGetAsn1Uint64_reads h₆ []
  have htimeoutValue := cbsGetAsn1Uint64_reads h₈ []
  rw [append_nil] at htime htimeoutValue
  refine bind_of_eq_some (cbsGetAsn1Uint64_reads h₁ _) ?_
  dsimp only
  rw [if_neg (fun h => h rfl)]
  refine bind_of_eq_some (cbsGetAsn1Uint64_reads h₂ _) ?_
  dsimp only
  rw [if_neg hsslVersion]
  refine bind_of_eq_some (by rw [UInt16.toUInt16_toUInt64]; exact hversion) ?_
  refine bind_of_eq_some (cbsGetAsn1_cbbAddAsn1 tagReads_octetString h₃ _) ?_
  refine bind_of_eq_some hvalue ?_
  dsimp only
  rw [if_neg (fun h => h rfl)]
  refine bind_of_eq_some (sslGetCipherByValue_id hcipher) ?_
  refine bind_of_eq_some (cbsGetBoundedBytes_reads hsessionId _) ?_
  refine bind_of_eq_some (cbsGetBoundedBytes_reads h₅ _) ?_
  refine bind_of_eq_some (cbsGetAsn1_cbbAddAsn1 (tagReads_contextTag 1) h₇ _) ?_
  refine bind_of_eq_some htime ?_
  refine bind_of_eq_some (cbsGetAsn1_cbbAddAsn1 (tagReads_contextTag 2) h₉ _) ?_
  refine bind_of_eq_some htimeoutValue ?_
  dsimp only
  rw [if_neg htimeout]
  simp only [UInt16.toUInt16_toUInt64, UInt32.toUInt32_toUInt64]
  rfl

def SslSession.ticketPart (session : SslSession) (forTicket : Bool) : SessionTicket where
  peer := if session.peerSha256Valid then none else session.certList.head?
  sidCtx := session.sidCtx
  verifyResult := session.verifyResult
  pskIdentity := session.pskIdentity
  ticketLifetimeHint := session.ticketLifetimeHint
  ticket := (session.serialized forTicket).ticket
  peerSha256 := if session.peerSha256Valid then some session.peerSha256 else none
  originalHandshakeHash := session.originalHandshakeHash
  signedCertTimestampList := session.signedCertTimestampList
  ocspResponse := session.ocspResponse

theorem SslSession.Valid.peer_ne (h : session.Valid) (forTicket : Bool) :
    (session.ticketPart forTicket).peer ≠ some [] := by
  intro hpeer
  rw [ticketPart] at hpeer
  split at hpeer
  · cases hpeer
  · exact (h.certs [] (mem_of_mem_head? hpeer)).ne_nil rfl

theorem sslSessionParseTicket_readable {peer ticket later : List OptionalField}
    (hvalid : session.Valid) (hpeer : sslSessionPeerFields session = some peer)
    (hticket : sslSessionTicketFields session forTicket = some ticket)
    (hread : Readable (peer ++ (kHostNameTag, none) :: (ticket ++ later)) bytes) :
    ∃ rest, sslSessionParseTicket bytes = some (session.ticketPart forTicket, rest) ∧
      Readable later rest := by
  simp only [sslSessionPeerFields, bind_eq_bind, bind_eq_some_iff] at hpeer
  obtain ⟨sidCtx, h₁, verifyResult, h₂, hpeer⟩ := hpeer
  cases hpeer
  simp only [sslSessionTicketFields, bind_eq_bind, bind_eq_some_iff] at hticket
  obtain ⟨pskIdentity, h₃, ticketLifetimeHint, h₄, ticketBytes, h₅, peerSha256, h₆,
    originalHandshakeHash, h₇, signedCertTimestampList, h₈, ocspResponse, h₉, h⟩ := hticket
  cases h
  obtain ⟨r₀, hr₀, r₁, hr₁, r₂, hr₂, r₃, hr₃, r₄, hr₄, r₅, hr₅, r₆, hr₆, r₇, hr₇, r₈, hr₈, r₉, hr₉,
    r₁₀, hr₁₀, hrest⟩ := hread
  have hsidCtx : (some session.sidCtx.bytes).mapM cbbAddAsn1OctetString = some (some sidCtx) :=
    map_eq_some_iff.mpr ⟨sidCtx, h₁, rfl⟩
  have hhint : decide (session.ticketLifetimeHint > 0) = false →
      session.ticketLifetimeHint = 0 := by
    intro hzero
    exact not_not.mp (mt UInt32.pos_iff_ne_zero.mpr (of_decide_eq_false hzero))
  have hticketBytes : (nonemptyBytes (session.serialized forTicket).ticket).mapM
      cbbAddAsn1OctetString = some ticketBytes := by
    rw [← h₅, serialized]
    cases forTicket <;> rfl
  have hpeerSha256 : ((session.ticketPart forTicket).peerSha256.map FixedBytes.bytes).mapM
      cbbAddAsn1OctetString = some peerSha256 := by
    rw [← h₆, ticketPart]
    cases session.peerSha256Valid <;> rfl
  refine ⟨r₁₀, ?_, hrest⟩
  refine bind_of_eq_some hr₀ ?_
  refine (if_neg (hvalid.peer_ne forTicket)).trans ?_
  refine bind_of_eq_some (sslSessionParseBoundedOctetString_eq hr₁ hsidCtx rfl) ?_
  refine bind_of_eq_some (sslSessionParseLong_eq hr₂ h₂ hvalid.verifyResult) ?_
  refine bind_of_eq_some hr₃ ?_
  refine bind_of_eq_some (parseOptionalString_eq hr₄ h₃) ?_
  refine bind_of_eq_some (sslSessionParseU32_eq hr₅ h₄ hhint) ?_
  refine bind_of_eq_some (ssl3StateParseOctetString_eq hr₆ hticketBytes) ?_
  refine bind_of_eq_some (sslSessionParsePeerSha256_eq hr₇ hpeerSha256) ?_
  refine bind_of_eq_some
    (sslSessionParseBoundedOctetString_eq hr₈ h₇ (nonemptyBytes_getD _)) ?_
  refine bind_of_eq_some (sslSessionParseCryptoBuffer_eq hr₉ h₈) ?_
  exact bind_of_eq_some (sslSessionParseCryptoBuffer_eq hr₁₀ h₉) rfl

theorem sslSessionParseCerts_eq (hvalid : session.Valid) :
    sslSessionParseCerts (if session.peerSha256Valid then none else session.certList.head?)
        (if ¬session.peerSha256Valid ∧ session.certList.length ≥ 2 then
          some session.certList.tail.flatten else none) =
      some (if session.certList = [] then none else session.certs) := by
  have hcerts : session.certList ≠ [] → session.certs = some session.certList := by
    rw [certList]
    cases session.certs with
    | none => exact fun hne => absurd rfl hne
    | some certs => exact fun _ => rfl
  have hder := hvalid.certs
  by_cases hempty : session.certList = []
  · rw [hempty]
    cases session.peerSha256Valid <;> rfl
  · have hsha : session.peerSha256Valid = false := by
      cases hflag : session.peerSha256Valid with
      | false => rfl
      | true => exact absurd (hvalid.peerSha256 hflag) hempty
    rw [if_neg hempty, hcerts hempty, hsha]
    rcases hlist : session.certList with _ | ⟨cert, certs⟩
    · exact absurd hlist hempty
    rw [hlist] at hder
    have hchain := sslSessionParseCertChain_flatten
      (fun other hother => hder other (mem_cons_of_mem cert hother)) _ (le_refl _)
    rw [if_neg Bool.false_ne_true, List.head?_cons, tail_cons, sslSessionParseCerts]
    rcases certs with _ | ⟨second, certs⟩
    · rfl
    · have hsecond : second ≠ [] := (hder second (by simp)).ne_nil
      have hlong : ¬false = true ∧ (cert :: second :: certs).length ≥ 2 := by simp
      have hflatten : some (second :: certs).flatten ≠ some [] := by
        rw [flatten_cons, ne_eq, Option.some.injEq, append_eq_nil_iff]
        exact fun h => hsecond h.1
      rw [if_pos hlong, if_neg hflatten, getD_some, hchain]
      rfl

def SslSession.extensions (session : SslSession) : SessionExtensions where
  extendedMasterSecret := session.extendedMasterSecret
  groupId := session.groupId
  certs := if session.certList = [] then none else session.certs
  ticketAgeAdd := if session.ticketAgeAddValid then some session.ticketAgeAdd else none
  isServer := session.isServer
  peerSignatureAlgorithm := session.peerSignatureAlgorithm
  ticketMaxEarlyData := session.ticketMaxEarlyData
  authTimeout := session.authTimeout
  earlyAlpn := session.earlyAlpn
  isQuic := session.isQuic
  quicEarlyDataContext := session.quicEarlyDataContext
  localAlps :=
    if session.hasApplicationSettings then some session.localApplicationSettings else none
  peerAlps := if session.hasApplicationSettings then some session.peerApplicationSettings else none

theorem sslSessionParseExtensions_readable {fields : List OptionalField} (hvalid : session.Valid)
    (forTicket : Bool) (hfields : sslSessionExtensionFields session = some fields)
    (hread : Readable fields bytes) :
    sslSessionParseExtensions (session.ticketPart forTicket).peer session.timeout bytes =
      some (session.extensions, []) := by
  unfold sslSessionExtensionFields at hfields
  obtain ⟨extendedMasterSecret, h₁, h⟩ := bind_eq_some_iff.mp hfields
  obtain ⟨groupId, h₂, h⟩ := bind_eq_some_iff.mp h
  obtain ⟨ticketAgeAdd, h₄, h⟩ := bind_eq_some_iff.mp h
  obtain ⟨isServer, h₅, h⟩ := bind_eq_some_iff.mp h
  obtain ⟨peerSignatureAlgorithm, h₆, h⟩ := bind_eq_some_iff.mp h
  obtain ⟨ticketMaxEarlyData, h₇, h⟩ := bind_eq_some_iff.mp h
  obtain ⟨authTimeout, h₈, h⟩ := bind_eq_some_iff.mp h
  obtain ⟨earlyAlpn, h₉, h⟩ := bind_eq_some_iff.mp h
  obtain ⟨isQuic, h₁₀, h⟩ := bind_eq_some_iff.mp h
  obtain ⟨quicEarlyDataContext, h₁₁, h⟩ := bind_eq_some_iff.mp h
  obtain ⟨localAlps, h₁₂, h⟩ := bind_eq_some_iff.mp h
  obtain ⟨peerAlps, h₁₃, h⟩ := bind_eq_some_iff.mp h
  cases h
  obtain ⟨r₁, hr₁, r₂, hr₂, r₃, hr₃, r₄, hr₄, r₅, hr₅, r₆, hr₆, r₇, hr₇, r₈, hr₈, r₉, hr₉,
    r₁₀, hr₁₀, r₁₁, hr₁₁, r₁₂, hr₁₂, r₁₃, hr₁₃, rfl⟩ := hread
  have hgroupId : decide (session.groupId > 0) = false → session.groupId = 0 := by
    intro hzero
    exact not_not.mp (mt UInt16.pos_iff_ne_zero.mpr (of_decide_eq_false hzero))
  have hticketAgeAdd : (session.extensions.ticketAgeAdd.map cbbAddU32).mapM
      cbbAddAsn1OctetString = some ticketAgeAdd := by
    rw [← h₄, SslSession.extensions]
    cases session.ticketAgeAddValid <;> rfl
  have hauthTimeout : decide (session.timeout ≠ session.authTimeout) = false →
      session.authTimeout = session.timeout := fun hsame =>
    (not_not.mp (of_decide_eq_false hsame)).symm
  refine bind_of_eq_some (cbsGetOptionalAsn1Bool_flag hr₁ h₁) ?_
  refine bind_of_eq_some (sslSessionParseU16_eq hr₂ h₂ hgroupId) ?_
  refine bind_of_eq_some hr₃ ?_
  refine bind_of_eq_some (sslSessionParseCerts_eq hvalid) ?_
  refine bind_of_eq_some (sslSessionParseTicketAgeAdd_eq hr₄ hticketAgeAdd) ?_
  refine bind_of_eq_some (cbsGetOptionalAsn1Bool_isServer hr₅ h₅) ?_
  refine bind_of_eq_some (sslSessionParseU16_eq hr₆ h₆ fun hzero =>
    not_not.mp (of_decide_eq_false hzero)) ?_
  refine bind_of_eq_some (sslSessionParseU32_eq hr₇ h₇ fun hzero =>
    not_not.mp (of_decide_eq_false hzero)) ?_
  refine bind_of_eq_some (sslSessionParseU32_eq hr₈ h₈ hauthTimeout) ?_
  refine bind_of_eq_some (ssl3StateParseOctetString_eq hr₉ h₉) ?_
  refine bind_of_eq_some (cbsGetOptionalAsn1Bool_flag hr₁₀ h₁₀) ?_
  refine bind_of_eq_some (ssl3StateParseOctetString_eq hr₁₁ h₁₁) ?_
  refine bind_of_eq_some (cbsGetOptionalAsn1OctetString_eq hr₁₂ h₁₂) ?_
  exact bind_of_eq_some (cbsGetOptionalAsn1OctetString_eq hr₁₃ h₁₃) rfl

theorem cbbAddFields_insert_none (before after : List OptionalField) (tag : UInt32) :
    cbbAddFields (before ++ (tag, none) :: after) = cbbAddFields (before ++ after) := by
  induction before with
  | nil => rfl
  | cons field before ih =>
    obtain ⟨fieldTag, contents⟩ := field
    cases contents with
    | none => exact ih
    | some contents =>
      rw [cons_append, cons_append, cbbAddFields, cbbAddFields, ih]

/-- The elements that are read, `hostName` with them, have these tags. -/
theorem sslSessionFields_tags {peer ticket extensions : List OptionalField}
    (hpeer : sslSessionPeerFields session = some peer)
    (hticket : sslSessionTicketFields session forTicket = some ticket)
    (hextensions : sslSessionExtensionFields session = some extensions) :
    (peer ++ (kHostNameTag, none) :: (ticket ++ extensions)).map Prod.fst =
      [3, 4, 5, 6, 8, 9, 10, 13, 14, 15, 16, 17, 18, 19, 21, 22, 23, 24, 25, 26, 27, 28, 29, 30].map
        fun number : Nat => contextTag (.ofNat number) := by
  unfold sslSessionPeerFields at hpeer
  iterate 2 obtain ⟨_, -, hpeer⟩ := bind_eq_some_iff.mp hpeer
  cases hpeer
  unfold sslSessionTicketFields at hticket
  iterate 7 obtain ⟨_, -, hticket⟩ := bind_eq_some_iff.mp hticket
  cases hticket
  unfold sslSessionExtensionFields at hextensions
  iterate 12 obtain ⟨_, -, hextensions⟩ := bind_eq_some_iff.mp hextensions
  cases hextensions
  rfl

theorem SslSession.ofParts_parts {cipher : SslCipher} (forTicket : Bool)
    (hcipher : session.cipher = some cipher) :
    ofParts (session.head cipher forTicket) (session.ticketPart forTicket)
      session.extensions = session.serialized forTicket := by
  simp only [ofParts, head, ticketPart, extensions, serialized]
  rw [← hcipher]
  cases session.peerSha256Valid <;> cases session.ticketAgeAddValid <;>
    cases session.hasApplicationSettings <;> rfl

variable (session)

def SslSession.size : Nat :=
  ((session.pskIdentity.map CString.bytes).getD []).length + session.ticket.length +
    session.certList.flatten.length + (session.signedCertTimestampList.getD []).length +
    (session.ocspResponse.getD []).length + session.earlyAlpn.length +
    session.quicEarlyDataContext.length + session.localApplicationSettings.length +
    session.peerApplicationSettings.length

theorem exists_uintContents (present : Bool) (value : UInt64) :
    ∃ child, uintContents present value = some child ∧ (child.getD []).length ≤ 25 := by
  cases present with
  | false => exact ⟨none, rfl, zero_le _⟩
  | true =>
    obtain ⟨contents, hcontents, hlength⟩ := exists_cbbAddAsn1Uint64 value
    exact ⟨some contents, map_eq_some_iff.mpr ⟨contents, hcontents, rfl⟩, hlength⟩

theorem exists_isServerContents (isServer : Bool) :
    ∃ child, isServerContents isServer = some child ∧ (child.getD []).length ≤ 3 := by
  cases isServer with
  | true => exact ⟨none, rfl, zero_le _⟩
  | false => exact ⟨some [1, 1, 0], rfl, le_refl _⟩

theorem length_getD_ite (condition : Prop) [Decidable condition] (data : Bytes) :
    ((if condition then some data else none).getD []).length ≤ data.length := by
  split
  · exact le_refl _
  · exact zero_le _

theorem exists_sslSessionPeerFields : ∃ fields, sslSessionPeerFields session = some fields ∧
      fieldsBound fields ≤ session.certList.flatten.length + 200 := by
  have hpeer : ((if session.peerSha256Valid then none else session.certList.head?).getD []).length ≤
      session.certList.flatten.length := by
    split
    · exact zero_le _
    · cases session.certList with
      | nil => exact zero_le _
      | cons cert certs =>
        rw [List.head?_cons, getD_some, flatten_cons, length_append]
        omega
  have hsidCtxLe : session.sidCtx.bytes.length ≤ 32 := session.sidCtx.length_le
  refine exists_bind (exists_cbbAddAsn1 _ hsidCtxLe (by decide)) fun sidCtx hsidCtx => ?_
  refine exists_bind (exists_uintContents _ _) fun verifyResult hverifyResult => ?_
  refine ⟨_, rfl, ?_⟩
  simp only [fieldsBound, getD_some]
  omega

theorem exists_sslSessionTicketFields (forTicket : Bool) (hsize : session.size ≤ 2 ^ 30) :
    ∃ fields, sslSessionTicketFields session forTicket = some fields ∧
      fieldsBound fields ≤ session.size + 500 := by
  rw [SslSession.size] at hsize ⊢
  have hticketLe : ((if forTicket then none else nonemptyBytes session.ticket).getD []).length ≤
      session.ticket.length := by
    split
    · exact zero_le _
    · rw [nonemptyBytes_getD]
  have hshaLe : ((if session.peerSha256Valid then some session.peerSha256.bytes else none).getD
      []).length ≤ 32 := by
    refine (length_getD_ite _ _).trans ?_
    exact le_of_eq session.peerSha256.length_eq
  have hhashLe : ((nonemptyBytes session.originalHandshakeHash.bytes).getD []).length ≤ 64 := by
    rw [nonemptyBytes_getD]
    exact session.originalHandshakeHash.length_le
  refine exists_bind (exists_octetString (le_refl _) (by omega)) fun pskIdentity h₁ => ?_
  refine exists_bind (exists_uintContents _ _) fun ticketLifetimeHint h₂ => ?_
  refine exists_bind (exists_octetString hticketLe (by omega)) fun ticket h₃ => ?_
  refine exists_bind (exists_octetString hshaLe (by decide)) fun peerSha256 h₄ => ?_
  refine exists_bind (exists_octetString hhashLe (by decide)) fun originalHandshakeHash h₅ => ?_
  refine exists_bind (exists_octetString (le_refl _) (by omega)) fun timestampList h₆ => ?_
  refine exists_bind (exists_octetString (le_refl _) (by omega)) fun ocspResponse h₇ => ?_
  refine ⟨_, rfl, ?_⟩
  simp only [fieldsBound]
  omega

theorem exists_sslSessionExtensionFields (hsize : session.size ≤ 2 ^ 30) :
    ∃ fields, sslSessionExtensionFields session = some fields ∧
      fieldsBound fields ≤ session.size + 600 := by
  rw [SslSession.size] at hsize ⊢
  have hchainLe : ((if ¬session.peerSha256Valid ∧ session.certList.length ≥ 2 then
      some session.certList.tail.flatten else none).getD []).length ≤
        session.certList.flatten.length := by
    refine (length_getD_ite _ _).trans ?_
    cases session.certList with
    | nil => exact zero_le _
    | cons cert certs =>
      rw [tail_cons, flatten_cons, length_append]
      omega
  have hageAddLe : ((if session.ticketAgeAddValid then some (cbbAddU32 session.ticketAgeAdd)
      else none).getD []).length ≤ 4 := by
    refine (length_getD_ite _ _).trans ?_
    rw [cbbAddU32, BigEndian.length_beBytes]
  have halpnLe := congrArg List.length (nonemptyBytes_getD session.earlyAlpn)
  have hquicLe := congrArg List.length (nonemptyBytes_getD session.quicEarlyDataContext)
  refine exists_bind (exists_flagContents _) fun extendedMasterSecret h₁ => ?_
  refine exists_bind (exists_uintContents _ _) fun groupId h₂ => ?_
  refine exists_bind (exists_octetString hageAddLe (by decide)) fun ticketAgeAdd h₃ => ?_
  refine exists_bind (exists_isServerContents _) fun isServer h₄ => ?_
  refine exists_bind (exists_uintContents _ _) fun peerSignatureAlgorithm h₅ => ?_
  refine exists_bind (exists_uintContents _ _) fun ticketMaxEarlyData h₆ => ?_
  refine exists_bind (exists_uintContents _ _) fun authTimeout h₇ => ?_
  refine exists_bind (exists_octetString (le_of_eq halpnLe) (by omega)) fun earlyAlpn h₈ => ?_
  refine exists_bind (exists_flagContents _) fun isQuic h₉ => ?_
  refine exists_bind (exists_octetString (le_of_eq hquicLe) (by omega)) fun quicContext h₁₀ => ?_
  refine exists_bind (exists_octetString (length_getD_ite _ _) (by omega)) fun localAlps h₁₁ => ?_
  refine exists_bind (exists_octetString (length_getD_ite _ _) (by omega)) fun peerAlps h₁₂ => ?_
  refine ⟨_, rfl, ?_⟩
  simp only [fieldsBound]
  linarith

theorem exists_sslSessionHeadToBytes (cipher : SslCipher) (forTicket : Bool) (fields : Bytes) :
    ∃ bytes, sslSessionHeadToBytes session cipher forTicket fields = some bytes ∧
      bytes.length ≤ fields.length + 400 := by
  have hidLe : (if forTicket then [] else session.sessionId.bytes).length ≤ 32 := by
    split
    · exact zero_le _
    · exact session.sessionId.length_le
  have hsecretLe : session.secret.bytes.length ≤ 48 := session.secret.length_le
  have hcipherLe : (cbbAddU16 (cipher.id &&& 0xffff).toUInt16).length ≤ 2 :=
    le_of_eq (BigEndian.length_beBytes _ _)
  unfold sslSessionHeadToBytes
  refine exists_bind (exists_cbbAddAsn1Uint64 _) fun version h₁ => ?_
  refine exists_bind (exists_cbbAddAsn1Uint64 _) fun sslVersion h₂ => ?_
  refine exists_bind (exists_cbbAddAsn1 _ hcipherLe (by decide)) fun cipherBytes h₃ => ?_
  refine exists_bind (exists_cbbAddAsn1 _ hidLe (by decide)) fun sessionId h₄ => ?_
  refine exists_bind (exists_cbbAddAsn1 _ hsecretLe (by decide)) fun secret h₅ => ?_
  refine exists_bind (exists_cbbAddAsn1Uint64 _) fun time h₆ => ?_
  refine exists_bind (exists_cbbAddAsn1 _ h₆ (by decide)) fun timeElement h₇ => ?_
  refine exists_bind (exists_cbbAddAsn1Uint64 _) fun timeout h₈ => ?_
  refine exists_bind (exists_cbbAddAsn1 _ h₈ (by decide)) fun timeoutElement h₉ => ?_
  refine ⟨_, rfl, ?_⟩
  simp only [length_append]
  omega

variable {session}

theorem exists_sslSessionToBytesFull {cipher : SslCipher} (hcipher : session.cipher = some cipher)
    (hsize : session.size ≤ 2 ^ 30) (forTicket : Bool) :
    ∃ bytes, sslSessionToBytesFull session forTicket = some bytes := by
  obtain ⟨peer, hpeer, hpeerBound⟩ := exists_sslSessionPeerFields session
  obtain ⟨ticket, hticket, hticketBound⟩ := exists_sslSessionTicketFields session forTicket hsize
  obtain ⟨extensions, hextensions, hextensionsBound⟩ :=
    exists_sslSessionExtensionFields session hsize
  have hcerts : session.certList.flatten.length ≤ session.size := by
    rw [SslSession.size]
    omega
  have hbound : fieldsBound (peer ++ (ticket ++ extensions)) ≤ 3 * session.size + 1300 := by
    rw [fieldsBound_append, fieldsBound_append]
    omega
  obtain ⟨fields, hfields, hfieldsLength⟩ := @exists_cbbAddFields (peer ++ (ticket ++ extensions))
    (by omega)
  obtain ⟨child, hchild, hchildLength⟩ :=
    exists_sslSessionHeadToBytes session cipher forTicket fields
  obtain ⟨bytes, hbytes, -⟩ := exists_cbbAddAsn1 CBS_ASN1_SEQUENCE hchildLength (by omega)
  exact ⟨bytes, bind_of_eq_some hcipher (bind_of_eq_some hpeer (bind_of_eq_some hticket
    (bind_of_eq_some hextensions (bind_of_eq_some hfields (bind_of_eq_some hchild hbytes)))))⟩

theorem sslSessionParse_toBytesFull (hvalid : session.Valid) {x509Method : SslX509Method}
    (hx509 : x509Method.sessionCacheObjects (session.serialized forTicket) = true)
    (hbytes : sslSessionToBytesFull session forTicket = some bytes) (suffix : Bytes) :
    sslSessionParse x509Method (bytes ++ suffix) = some (session.serialized forTicket, suffix) := by
  simp only [sslSessionToBytesFull, bind_eq_bind, bind_eq_some_iff] at hbytes
  obtain ⟨cipher, hcipher, peer, hpeer, ticket, hticket, extensions, hextensions, fields, hfields,
    child, hchild, h⟩ := hbytes
  have hknown : cipher ∈ kCiphers := by
    obtain ⟨other, hother, hsame⟩ := hvalid.cipher
    cases hcipher.symm.trans hsame
    exact hother
  -- the reader also asks for a host name, which is never written
  rw [← cbbAddFields_insert_none peer _ kHostNameTag] at hfields
  have hreadable := readable_of_contextTags (by decide) (by decide)
    (sslSessionFields_tags hpeer hticket hextensions) hfields
  obtain ⟨rest, hparse, hreadable⟩ := sslSessionParseTicket_readable hvalid hpeer hticket hreadable
  refine bind_of_eq_some (cbsGetAsn1_cbbAddAsn1 tagReads_sequence h suffix) ?_
  refine bind_of_eq_some (sslSessionParseHead_toBytes hvalid.version hknown hchild) ?_
  refine bind_of_eq_some hparse ?_
  refine bind_of_eq_some
    (sslSessionParseExtensions_readable hvalid forTicket hextensions hreadable) ?_
  refine (if_neg (fun h => h rfl)).trans ?_
  refine (if_neg ?_).trans ?_
  · rw [SslSession.extensions]
    cases hsettings : session.hasApplicationSettings with
    | false => simp
    | true =>
      have halpn := hvalid.earlyAlpn hsettings
      simp [halpn]
  · rw [ofParts_parts forTicket hcipher, if_pos hx509]

/-- **Sessions survive serialization.**  A session of at most a gigabyte can be written.  What
    is written of any session is read back as the session, all of it is read, and in what is
    written for a ticket just the session ID and the ticket are missing. -/
theorem session_round_trip (x509Method : SslX509Method) {session : SslSession}
    (hvalid : session.Valid) (forTicket : Bool)
    (hx509 : x509Method.sessionCacheObjects (session.serialized forTicket) = true) :
    (session.size ≤ 2 ^ 30 → ∃ bytes, sslSessionToBytesFull session forTicket = some bytes) ∧
      ∀ bytes, sslSessionToBytesFull session forTicket = some bytes → ∀ suffix,
        sslSessionParse x509Method (bytes ++ suffix) =
          some (session.serialized forTicket, suffix) := by
  constructor
  · intro hsize
    obtain ⟨cipher, -, hcipher⟩ := hvalid.cipher
    exact exists_sslSessionToBytesFull hcipher hsize forTicket
  · intro bytes hbytes suffix
    exact sslSessionParse_toBytesFull hvalid hx509 hbytes suffix

def clientSession : SslSession where
  sslVersion := TLS1_3_VERSION
  groupId := 29
  peerSignatureAlgorithm := 0x0804
  secret := ⟨[1, 2, 3], by decide⟩
  sessionId := ⟨[4], by decide⟩
  sidCtx := ⟨[], by decide⟩
  pskIdentity := some ⟨[0x61], by decide⟩
  certs := some [[0x30, 0x01, 0x05], [0x30, 0x00]]
  verifyResult := 18
  timeout := 7200
  authTimeout := 14400
  time := 1700000000
  cipher := some ⟨"TLS_AES_128_GCM_SHA256", "TLS_AES_128_GCM_SHA256", 0x03001301, SSL_kGENERIC,
    SSL_aGENERIC, SSL_AES128GCM, SSL_AEAD, SSL_HANDSHAKE_MAC_SHA256⟩
  ticket := [5, 6]
  signedCertTimestampList := some []
  ocspResponse := none
  peerSha256 := zeroSha256
  originalHandshakeHash := ⟨[7], by decide⟩
  ticketLifetimeHint := 300
  ticketAgeAdd := 0x01020304
  ticketMaxEarlyData := 0
  earlyAlpn := [0x68, 0x32]
  localApplicationSettings := []
  peerApplicationSettings := [8]
  extendedMasterSecret := true
  peerSha256Valid := false
  ticketAgeAddValid := true
  isServer := false
  isQuic := false
  hasApplicationSettings := true
  quicEarlyDataContext := []

theorem clientSession_valid : clientSession.Valid where
  version := by decide
  cipher := ⟨_, by decide, rfl⟩
  verifyResult := by decide
  certs := by
    intro cert hcert
    rcases mem_cons.mp hcert with rfl | hcert
    · exact ⟨_, _, rfl⟩
    · rcases mem_singleton.mp hcert with rfl
      exact ⟨_, _, rfl⟩
  peerSha256 := by decide
  earlyAlpn := by decide

/-- The session of the client is written, for a cache and for a ticket, and read back. -/
theorem session_round_trip_client : clientSession.Valid ∧
    (∃ bytes, sslSessionToBytesFull clientSession false = some bytes ∧
      sslSessionParse sslNoopX509Method (bytes ++ [0xff]) =
        some (clientSession.serialized false, [0xff])) ∧
    (∃ bytes, sslSessionToBytesFull clientSession true = some bytes ∧
      sslSessionParse sslNoopX509Method bytes = some (clientSession.serialized true, [])) := by
  have hcache := session_round_trip sslNoopX509Method clientSession_valid false rfl
  have hticket := session_round_trip sslNoopX509Method clientSession_valid true rfl
  obtain ⟨cached, hcached⟩ := hcache.1 (by decide)
  obtain ⟨bytes, hbytes⟩ := hticket.1 (by decide)
  refine ⟨clientSession_valid, ⟨cached, hcached, hcache.2 cached hcached [0xff]⟩, bytes, hbytes, ?_⟩
  rw [← append_nil bytes]
  exact hticket.2 bytes hbytes []

end AwsLc
