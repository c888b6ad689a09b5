import AwsLc.ByteString

/-!
# Record protection contexts (`ssl_aead_ctx.cc`)

`SSLAEADContext` builds the additional data and the nonce from the record header and the sequence
number and calls the cipher's `EVP_AEAD`.  The cipher is a parameter with a state between calls,
which holds the last nonce of the AES-GCM ciphers and the source of random nonces; its laws are
those of every `EVP_AEAD`.  Buffers do not alias, and lengths are bounded by a record.
-/

namespace AwsLc

def SSL3_RT_HEADER_LENGTH : Nat := 5

def TLS1_VERSION : UInt16 := 0x0301
def TLS1_1_VERSION : UInt16 := 0x0302
def TLS1_2_VERSION : UInt16 := 0x0303
def TLS1_3_VERSION : UInt16 := 0x0304
def DTLS1_VERSION : UInt16 := 0xfeff
def DTLS1_2_VERSION : UInt16 := 0xfefd

/-- `ssl_protocol_version_from_wire`: DTLS 1.0 is analogous to TLS 1.1. -/
def sslProtocolVersionFromWire (version : UInt16) : Option UInt16 :=
  if version = TLS1_VERSION ∨ version = TLS1_1_VERSION ∨ version = TLS1_2_VERSION ∨
      version = TLS1_3_VERSION then some version
  else if version = DTLS1_VERSION then some TLS1_1_VERSION
  else if version = DTLS1_2_VERSION then some TLS1_2_VERSION
  else none

/-- The `EVP_AEAD` of a context, with the state `κ` it keeps between calls. -/
structure EvpAead (κ : Type) where
  /-- `EVP_AEAD_max_overhead` -/
  maxOverhead : Nat
  /-- `EVP_AEAD_CTX_tag_len` -/
  tagLen : (inLen extraInLen : Nat) → Option Nat
  /-- `EVP_AEAD_CTX_seal_scatter`: the sealed body and the tag, or an error. -/
  sealScatter : κ → (nonce body extraIn ad : Bytes) → Option (Bytes × Bytes) × κ
  /-- `EVP_AEAD_CTX_open` -/
  openAead : κ → (nonce ciphertext ad : Bytes) → Option Bytes
  /-- `RAND_bytes` -/
  randBytes : κ → Nat → Option Bytes × κ
  tagLen_le : ∀ {inLen extraInLen len}, tagLen inLen extraInLen = some len →
    len ≤ maxOverhead + extraInLen
  sealScatter_length : ∀ {ctx nonce body extraIn ad out tag ctx'},
    sealScatter ctx nonce body extraIn ad = (some (out, tag), ctx') →
    out.length = body.length ∧ tagLen body.length extraIn.length = some tag.length
  randBytes_length : ∀ {ctx len out ctx'}, randBytes ctx len = (some out, ctx') →
    out.length = len

def EvpAead.unset : EvpAead Unit where
  maxOverhead := 0
  tagLen := fun _ _ => none
  sealScatter := fun ctx _ _ _ _ => (none, ctx)
  openAead := fun _ _ _ _ => none
  randBytes := fun ctx _ => (none, ctx)
  tagLen_le := by simp
  sealScatter_length := by simp
  randBytes_length := by simp

/-- `SSLAEADContext`.  The last three fields are what `Create` and `CreateNullCipher` establish; a
    block cipher without an explicit nonce is marked as having one of length zero. -/
structure SslAeadContext (κ : Type) where
  isNullCipher : Bool
  version : UInt16
  isDtls : Bool
  fixedNonce : Bytes
  variableNonceLen : Nat
  variableNonceIncludedInRecord : Bool
  randomVariableNonce : Bool
  xorFixedNonce : Bool
  omitLengthInAd : Bool
  adIsHeader : Bool
  /-- `SSL_CIPHER_is_block_cipher` of the context's cipher -/
  isBlockCipher : Bool
  /-- `ssl_cipher_get_record_split_len` of the context's cipher -/
  recordSplitLen : Nat
  evp : EvpAead κ
  ctx : κ
  null_has_no_nonce : isNullCipher = true → variableNonceIncludedInRecord = false
  sequence_nonce_len : isNullCipher = false → randomVariableNonce = false →
    variableNonceLen = 8
  split_len : isNullCipher = false → isBlockCipher = true →
    (sslProtocolVersionFromWire version).getD 0 < TLS1_1_VERSION →
    (variableNonceIncludedInRecord = true → variableNonceLen = 0) ∧ 0 < recordSplitLen ∧
      evp.tagLen 1 0 = some (recordSplitLen - 1)

namespace SslAeadContext

variable {κ : Type}
variable (aead : SslAeadContext κ)

/-- `ProtocolVersion`; zero stands for the failed assertion on an unset version. -/
def protocolVersion : UInt16 :=
  (sslProtocolVersionFromWire aead.version).getD 0

def recordVersion : UInt16 :=
  if aead.version = 0 then (if aead.isDtls then DTLS1_VERSION else TLS1_VERSION)
  else if aead.protocolVersion ≤ TLS1_2_VERSION then aead.version
  else TLS1_2_VERSION

def explicitNonceLen : Nat :=
  if aead.variableNonceIncludedInRecord then aead.variableNonceLen else 0

def suffixLen (inLen extraInLen : Nat) : Option Nat :=
  if aead.isNullCipher then some extraInLen
  else aead.evp.tagLen inLen extraInLen

/-- `CiphertextLen`: a ciphertext of `0xffff` bytes or more is an error. -/
def ciphertextLen (inLen extraInLen : Nat) : Option Nat := do
  let suffix ← aead.suffixLen inLen extraInLen
  let len := suffix + aead.explicitNonceLen + inLen
  if 0xffff ≤ len then none else some len

def maxOverhead : Nat :=
  aead.explicitNonceLen + (if aead.isNullCipher then 0 else aead.evp.maxOverhead)

def getAdditionalData (type : UInt8) (recordVersion : UInt16)
    (seqnum : Bytes) (plaintextLen : Nat) (header : Bytes) : Bytes :=
  if aead.adIsHeader then header
  else
    seqnum ++ [type] ++ cbbAddU16 recordVersion ++
      (if aead.omitLengthInAd then [] else BigEndian.beBytes 2 plaintextLen)

/-- The nonce for the variable part `variable`: the fixed part is XORed into it,
    left-padded with zeros, or put in front of it. -/
def assembleNonce (variableNonce : Bytes) : Bytes :=
  if aead.xorFixedNonce then
    List.zipWith (· ^^^ ·)
      (List.replicate (aead.fixedNonce.length - aead.variableNonceLen) 0 ++ variableNonce)
      aead.fixedNonce
  else aead.fixedNonce ++ variableNonce

def openRecord (type : UInt8) (recordVersion : UInt16)
    (seqnum header input : Bytes) : Option Bytes :=
  if aead.isNullCipher then some input
  -- TLS 1.2 AEADs put the plaintext length in the AD and have a fixed overhead
  else if aead.omitLengthInAd = false ∧ input.length < aead.maxOverhead then none
  else
    let plaintextLen := if aead.omitLengthInAd then 0 else input.length - aead.maxOverhead
    let ad := aead.getAdditionalData type recordVersion seqnum plaintextLen header
    if aead.variableNonceIncludedInRecord then
      if input.length < aead.variableNonceLen then none
      else aead.evp.openAead aead.ctx
        (aead.assembleNonce (input.take aead.variableNonceLen))
        (input.drop aead.variableNonceLen) ad
    else aead.evp.openAead aead.ctx
      (aead.assembleNonce (seqnum.take aead.variableNonceLen)) input ad

def selectVariableNonce (seqnum : Bytes) : Option Bytes × κ :=
  if aead.randomVariableNonce then aead.evp.randBytes aead.ctx aead.variableNonceLen
  else (some (seqnum.take aead.variableNonceLen), aead.ctx)

/-- `SealScatter`: the explicit nonce, the sealed body and the suffix. -/
def sealScatter (type : UInt8) (recordVersion : UInt16) (seqnum header body extraIn : Bytes) :
    Option (Bytes × Bytes × Bytes) × SslAeadContext κ :=
  match aead.suffixLen body.length extraIn.length with
  | none => (none, aead)
  | some _ =>
    if aead.isNullCipher then (some ([], body, extraIn), aead)
    else
      let ad := aead.getAdditionalData type recordVersion seqnum body.length header
      match aead.selectVariableNonce seqnum with
      | (none, ctx) => (none, { aead with ctx := ctx })
      | (some variableNonce, ctx) =>
        let explicitNonce :=
          if aead.variableNonceIncludedInRecord then variableNonce else []
        match aead.evp.sealScatter ctx (aead.assembleNonce variableNonce) body extraIn ad with
        | (none, ctx) => (none, { aead with ctx := ctx })
        | (some (out, tag), ctx) => (some (explicitNonce, out, tag), { aead with ctx := ctx })

def sealInto (maxOutLen : Nat) (type : UInt8)
    (recordVersion : UInt16) (seqnum header body : Bytes) : Option Bytes × SslAeadContext κ :=
  match aead.suffixLen body.length 0 with
  | none => (none, aead)
  | some suffix =>
    if maxOutLen < body.length + aead.explicitNonceLen + suffix then (none, aead)
    else
      match aead.sealScatter type recordVersion seqnum header body [] with
      | (none, aead) => (none, aead)
      | (some (explicitNonce, out, tag), aead) => (some (explicitNonce ++ out ++ tag), aead)

/-- `CreateNullCipher`; the cipher is never called. -/
def createNullCipher (evp : EvpAead κ) (ctx : κ) (isDtls : Bool) : SslAeadContext κ where
  isNullCipher := true
  version := 0
  isDtls := isDtls
  fixedNonce := []
  variableNonceLen := 0
  variableNonceIncludedInRecord := false
  randomVariableNonce := false
  xorFixedNonce := false
  omitLengthInAd := false
  adIsHeader := false
  isBlockCipher := false
  recordSplitLen := 0
  evp := evp
  ctx := ctx
  null_has_no_nonce := fun _ => rfl
  sequence_nonce_len := fun h => by cases h
  split_len := fun h => by cases h

theorem selectVariableNonce_length {aead : SslAeadContext κ} {seqnum variableNonce : Bytes}
    {ctx : κ}
    (hcipher : aead.isNullCipher = false) (hseqnum : seqnum.length = 8)
    (h : aead.selectVariableNonce seqnum = (some variableNonce, ctx)) :
    variableNonce.length = aead.variableNonceLen := by
  unfold selectVariableNonce at h
  split at h
  · exact aead.evp.randBytes_length h
  · rename_i hrandom
    rw [Bool.not_eq_true] at hrandom
    cases h
    rw [List.length_take, hseqnum, aead.sequence_nonce_len hcipher hrandom]
    rfl

/-- `SealScatter` changes nothing but the state of the cipher. -/
theorem sealScatter_frame (type : UInt8) (version : UInt16) (seqnum header body extraIn : Bytes) :
    ∃ ctx, (aead.sealScatter type version seqnum header body extraIn).2 =
      { aead with ctx := ctx } := by
  unfold sealScatter
  split
  · exact ⟨aead.ctx, rfl⟩
  split
  · exact ⟨aead.ctx, rfl⟩
  dsimp only
  split
  · exact ⟨_, rfl⟩
  split <;> exact ⟨_, rfl⟩

/-- The three parts written by `SealScatter` have the announced lengths. -/
theorem sealScatter_length {aead aead' : SslAeadContext κ} {type : UInt8} {version : UInt16}
    {seqnum header body extraIn explicitNonce out suffix : Bytes} (hseqnum : seqnum.length = 8)
    (h : aead.sealScatter type version seqnum header body extraIn =
      (some (explicitNonce, out, suffix), aead')) :
    explicitNonce.length = aead.explicitNonceLen ∧ out.length = body.length ∧
      aead.suffixLen body.length extraIn.length = some suffix.length := by
  unfold sealScatter at h
  split at h
  · cases h
  rename_i len hsuffix
  split at h
  · rename_i hnull
    cases h
    refine ⟨?_, rfl, ?_⟩
    · simp [explicitNonceLen, aead.null_has_no_nonce hnull]
    · rw [suffixLen, if_pos hnull]
  · rename_i hcipher
    rw [Bool.not_eq_true] at hcipher
    dsimp only at h
    split at h
    · cases h
    rename_i variableNonce ctx hselect
    split at h
    · cases h
    rename_i hseal
    cases h
    obtain ⟨hbody, htag⟩ := aead.evp.sealScatter_length hseal
    refine ⟨?_, hbody, ?_⟩
    · unfold explicitNonceLen
      split
      · exact selectVariableNonce_length hcipher hseqnum hselect
      · rfl
    · rw [suffixLen, if_neg (by rw [hcipher]; decide)]
      exact htag

/-- What `Seal` writes fits its buffer and has the length of `CiphertextLen`. -/
theorem sealInto_length {aead aead' : SslAeadContext κ} {maxOutLen : Nat} {type : UInt8}
    {version : UInt16} {seqnum header body out : Bytes} (hseqnum : seqnum.length = 8)
    (h : aead.sealInto maxOutLen type version seqnum header body = (some out, aead')) :
    out.length ≤ maxOutLen ∧
      ∀ len, aead.ciphertextLen body.length 0 = some len → out.length = len := by
  unfold sealInto at h
  split at h
  · cases h
  rename_i suffix hsuffix
  split at h
  · cases h
  rename_i hfits
  split at h
  · cases h
  rename_i explicitNonce sealed tag aead₁ hseal
  cases h
  obtain ⟨hnonce, hbody, htag⟩ := sealScatter_length hseqnum hseal
  rw [List.length_nil, hsuffix] at htag
  have htag' := Option.some.inj htag
  simp only [List.length_append, hnonce, hbody, ← htag']
  refine ⟨by omega, fun len hlen => ?_⟩
  simp only [ciphertextLen, hsuffix, Option.bind_eq_bind, Option.bind_some] at hlen
  split at hlen
  · cases hlen
  · cases hlen
    omega

end SslAeadContext

end AwsLc
