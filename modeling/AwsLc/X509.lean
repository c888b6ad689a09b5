import AwsLc.ByteString

/-!
# Certificates (`crypto/x509`)

A certificate as the verifier sees it: the fields of `X509` with its extensions parsed, and the
flags and values that `x509v3_cache_extensions` derives from them.  An extension is absent, does
not parse (or occurs twice), or has a value; these are the cases of `X509_get_ext_d2i`.
-/

namespace AwsLc

/-- The verification results that are used, `X509_V_OK` and `X509_V_ERR_*`. -/
inductive X509V where
  | ok
  | unspecified
  | unableToGetIssuerCert
  | unableToDecodeIssuerPublicKey
  | certSignatureFailure
  | outOfMem
  | depthZeroSelfSignedCert
  | selfSignedCertInChain
  | unableToGetIssuerCertLocally
  | unableToVerifyLeafSignature
  | invalidCa
  | pathLengthExceeded
  | invalidPurpose
  | certRejected
  | subjectIssuerMismatch
  | akidSkidMismatch
  | akidIssuerSerialMismatch
  | keyusageNoCertsign
  | unhandledCriticalExtension
  | invalidExtension
  | invalidPolicyExtension
  | noExplicitPolicy
  | permittedViolation
  | excludedViolation
  | subtreeMinmax
  | unsupportedConstraintType
  | unsupportedNameSyntax
  | invalidCall
  | storeLookup
  | ecKeyExplicitParams
  | unableToGetCertsPublicKey
deriving DecidableEq, Repr

/-! ### Names and extensions -/

inductive Asn1Type where
  | ia5String
  | octetString
  | other (tag : Nat)
deriving DecidableEq, Repr

structure Asn1String where
  type : Asn1Type
  data : Bytes
deriving DecidableEq, Repr

inductive AttributeType where
  | commonName
  | emailAddress
  | other (nid : Nat)
deriving DecidableEq, Repr

/-- `X509_NAME`: its entries, and the canonical encoding that names are compared by. -/
structure X509Name where
  entries : List (AttributeType × Asn1String)
  canonEnc : Bytes
deriving DecidableEq, Repr

/-- `X509_NAME_cmp`, where it returns zero. -/
def x509NameEq (a b : X509Name) : Bool := a.canonEnc == b.canonEnc

inductive GeneralName where
  | otherName (value : Bytes)
  | email (rfc822Name : Asn1String)
  | dns (dNSName : Asn1String)
  | x400 (value : Bytes)
  | dirName (directoryName : X509Name)
  | ediParty (value : Bytes)
  | uri (uniformResourceIdentifier : Asn1String)
  | ipAdd (iPAddress : Asn1String)
  | rid (value : Bytes)
deriving DecidableEq, Repr

/-- `GENERAL_SUBTREE`; of the limits only the presence is looked at. -/
structure GeneralSubtree where
  base : GeneralName
  minimum : Bool
  maximum : Bool
deriving DecidableEq, Repr

structure NameConstraints where
  permittedSubtrees : List GeneralSubtree
  excludedSubtrees : List GeneralSubtree
deriving DecidableEq, Repr

structure BasicConstraints where
  ca : Bool
  pathlen : Option Int
deriving DecidableEq, Repr

structure AuthorityKeyid where
  keyid : Option Bytes
  issuer : Option (List GeneralName)
  serial : Option Int
deriving DecidableEq, Repr

inductive KeyPurpose where
  | serverAuth
  | clientAuth
  | emailProtect
  | codeSign
  | msSgc
  | nsSgc
  | ocspSign
  | timeStamp
  | dvcs
  | anyExtendedKeyUsage
  | other (nid : Nat)
deriving DecidableEq, Repr

/-- The DER encoding of an object identifier, without its header. -/
abbrev ObjectId := Bytes

structure PolicyConstraints where
  requireExplicitPolicy : Option Int
  inhibitPolicyMapping : Option Int
deriving DecidableEq, Repr

/-- What `X509_get_ext_d2i` returns. -/
inductive Extension (α : Type) where
  | absent
  | invalid
  | present (value : α)
deriving DecidableEq, Repr

namespace Extension

variable {α : Type}

def value? : Extension α → Option α
  | present value => some value
  | _ => none

def isInvalid : Extension α → Bool
  | invalid => true
  | _ => false

def isPresent : Extension α → Bool
  | present _ => true
  | _ => false

end Extension

inductive PublicKey where
  | undecodable
  | notEc
  /-- an elliptic curve key, and whether its curve was given by explicit parameters -/
  | ec (explicitParams : Bool)
deriving DecidableEq, Repr

structure X509Info where
  version1 : Bool
  serialNumber : Int
  issuer : X509Name
  subject : X509Name
  publicKey : PublicKey
  basicConstraints : Extension BasicConstraints
  keyUsage : Extension Bytes
  extKeyUsage : Extension (List KeyPurpose)
  extKeyUsageCritical : Bool
  netscapeCertType : Extension Bytes
  subjectKeyIdentifier : Extension Bytes
  authorityKeyIdentifier : Extension AuthorityKeyid
  subjectAltName : Extension (List GeneralName)
  nameConstraints : Extension NameConstraints
  crlDistributionPoints : Extension Unit
  certificatePolicies : Extension (List ObjectId)
  policyMappings : Extension (List (ObjectId × ObjectId))
  policyConstraints : Extension PolicyConstraints
  inhibitAnyPolicy : Extension Int
  /-- the critical extensions that `X509_supported_extension` does not know -/
  unsupportedCritical : List ObjectId
deriving DecidableEq, Repr

/-- Trust settings, `X509_CERT_AUX`. -/
structure X509CertAux where
  trust : Option (List KeyPurpose)
  reject : Option (List KeyPurpose)
deriving DecidableEq, Repr

/-- `X509`: an object in memory, with contents and trust settings. -/
structure X509 where
  address : Nat
  info : X509Info
  aux : Option X509CertAux
deriving DecidableEq, Repr

/-! ### Cached values -/

def LONG_MAX : Nat := 2 ^ 63 - 1

/-- `ASN1_INTEGER_get`, which returns -1 for a number that does not fit. -/
def asn1IntegerGet (a : Int) : Int :=
  if -(LONG_MAX : Int) - 1 ≤ a ∧ a ≤ LONG_MAX then a else -1

variable (x : X509)

namespace X509

def exPathlen : Int :=
  match x.info.basicConstraints with
  | .present bs =>
    match bs.pathlen with
    | some pathlen => if pathlen < 0 ∨ bs.ca = false then 0 else asn1IntegerGet pathlen
    | none => -1
  | _ => -1

def badPathlen : Bool :=
  match x.info.basicConstraints with
  | .present bs =>
    match bs.pathlen with
    | some pathlen => pathlen < 0 || !bs.ca
    | none => false
  | _ => false

def exKusage : BitVec 32 :=
  match x.info.keyUsage with
  | .present (low :: high :: _) => low.toBitVec.setWidth 32 ||| (high.toBitVec.setWidth 32 <<< 8)
  | .present [low] => low.toBitVec.setWidth 32
  | _ => 0

def exNscert : BitVec 32 :=
  match x.info.netscapeCertType with
  | .present (first :: _) => first.toBitVec.setWidth 32
  | _ => 0

end X509

def X509v3_KU_DIGITAL_SIGNATURE : BitVec 32 := 0x0080
def X509v3_KU_NON_REPUDIATION : BitVec 32 := 0x0040
def X509v3_KU_KEY_ENCIPHERMENT : BitVec 32 := 0x0020
def X509v3_KU_KEY_AGREEMENT : BitVec 32 := 0x0008
def X509v3_KU_KEY_CERT_SIGN : BitVec 32 := 0x0004
def X509v3_KU_CRL_SIGN : BitVec 32 := 0x0002

def NS_SSL_CLIENT : BitVec 32 := 0x80
def NS_SSL_SERVER : BitVec 32 := 0x40
def NS_SMIME : BitVec 32 := 0x20
def NS_SMIME_CA : BitVec 32 := 0x02

def XKU_SSL_SERVER : BitVec 32 := 0x1
def XKU_SSL_CLIENT : BitVec 32 := 0x2
def XKU_SMIME : BitVec 32 := 0x4
def XKU_CODE_SIGN : BitVec 32 := 0x8
def XKU_SGC : BitVec 32 := 0x10
def XKU_OCSP_SIGN : BitVec 32 := 0x20
def XKU_TIMESTAMP : BitVec 32 := 0x40
def XKU_DVCS : BitVec 32 := 0x80
def XKU_ANYEKU : BitVec 32 := 0x100

def xkuBit : KeyPurpose → BitVec 32
  | .serverAuth => XKU_SSL_SERVER
  | .clientAuth => XKU_SSL_CLIENT
  | .emailProtect => XKU_SMIME
  | .codeSign => XKU_CODE_SIGN
  | .msSgc | .nsSgc => XKU_SGC
  | .ocspSign => XKU_OCSP_SIGN
  | .timeStamp => XKU_TIMESTAMP
  | .dvcs => XKU_DVCS
  | .anyExtendedKeyUsage => XKU_ANYEKU
  | .other _ => 0

def X509.exXkusage : BitVec 32 :=
  match x.info.extKeyUsage with
  | .present usages => usages.foldl (fun bits usage => bits ||| xkuBit usage) 0
  | _ => 0

def kuReject (usage : BitVec 32) : Bool :=
  x.info.keyUsage.isPresent && x.exKusage &&& usage == 0

def xkuReject (usage : BitVec 32) : Bool :=
  x.info.extKeyUsage.isPresent && x.exXkusage &&& usage == 0

def nsReject (usage : BitVec 32) : Bool :=
  x.info.netscapeCertType.isPresent && x.exNscert &&& usage == 0

def firstDirName : List GeneralName → Option X509Name
  | [] => none
  | .dirName nm :: _ => some nm
  | _ :: gens => firstDirName gens

def x509CheckAkid (issuer : X509) : Option AuthorityKeyid → X509V
  | none => .ok
  | some akid =>
    if (match akid.keyid, issuer.info.subjectKeyIdentifier.value? with
        | some keyid, some skid => keyid != skid
        | _, _ => false) then .akidSkidMismatch
    else if (match akid.serial with
        | some serial => issuer.info.serialNumber != serial
        | none => false) then .akidIssuerSerialMismatch
    else if (match akid.issuer with
        | some gens =>
          match firstDirName gens with
          | some nm => !x509NameEq nm issuer.info.issuer
          | none => false
        | none => false) then .akidIssuerSerialMismatch
    else .ok

namespace X509

/-- `EXFLAG_SI`. -/
def selfIssued : Bool := x509NameEq x.info.subject x.info.issuer

/-- `EXFLAG_SS`. -/
def selfSigned : Bool :=
  x.selfIssued && x509CheckAkid x x.info.authorityKeyIdentifier.value? == .ok &&
    !kuReject x X509v3_KU_KEY_CERT_SIGN

/-- `EXFLAG_CRITICAL`. -/
def hasUnsupportedCritical : Bool := !x.info.unsupportedCritical.isEmpty

/-- `EXFLAG_INVALID`. -/
def invalid : Bool :=
  x.badPathlen || x.info.basicConstraints.isInvalid || x.info.keyUsage.isInvalid ||
    x.info.extKeyUsage.isInvalid || x.info.netscapeCertType.isInvalid ||
    x.info.subjectKeyIdentifier.isInvalid || x.info.authorityKeyIdentifier.isInvalid ||
    x.info.subjectAltName.isInvalid || x.info.nameConstraints.isInvalid ||
    x.info.crlDistributionPoints.isInvalid

end X509

def x509v3CacheExtensions : Bool := !x.invalid

def certSelfSigned : Option Bool :=
  if x509v3CacheExtensions x then some x.selfSigned else none

def x509CheckIssued (issuer subject : X509) : X509V :=
  if !x509NameEq issuer.info.subject subject.info.issuer then .subjectIssuerMismatch
  else if !x509v3CacheExtensions issuer || !x509v3CacheExtensions subject then .unspecified
  else
    match subject.info.authorityKeyIdentifier.value? with
    | some akid =>
      let ret := x509CheckAkid issuer (some akid)
      if ret ≠ .ok then ret
      else if kuReject issuer X509v3_KU_KEY_CERT_SIGN then .keyusageNoCertsign else .ok
    | none => if kuReject issuer X509v3_KU_KEY_CERT_SIGN then .keyusageNoCertsign else .ok

/-! ### Purposes -/

/-- `check_ca`.  A certificate of version 1 is one of a certificate authority if it is self-signed,
    and otherwise the basic constraints say so. -/
def checkCa : Bool :=
  if kuReject x X509v3_KU_KEY_CERT_SIGN then false
  else if x.info.version1 && x.selfSigned then true
  else
    match x.info.basicConstraints with
    | .present bs => bs.ca
    | _ => false

def x509CheckCa : Bool := x509v3CacheExtensions x && checkCa x

variable (ca : Bool)

def checkPurposeSslClient : Bool :=
  if xkuReject x XKU_SSL_CLIENT then false
  else if ca then checkCa x
  else if kuReject x (X509v3_KU_DIGITAL_SIGNATURE ||| X509v3_KU_KEY_AGREEMENT) then false
  else !nsReject x NS_SSL_CLIENT

def X509v3_KU_TLS : BitVec 32 :=
  X509v3_KU_DIGITAL_SIGNATURE ||| X509v3_KU_KEY_ENCIPHERMENT ||| X509v3_KU_KEY_AGREEMENT

def checkPurposeSslServer : Bool :=
  if xkuReject x XKU_SSL_SERVER then false
  else if ca then checkCa x
  else if nsReject x NS_SSL_SERVER then false
  else !kuReject x X509v3_KU_TLS

def checkPurposeNsSslServer : Bool :=
  let ret := checkPurposeSslServer x ca
  if !ret || ca then ret else !kuReject x X509v3_KU_KEY_ENCIPHERMENT

def purposeSmime : Bool :=
  if xkuReject x XKU_SMIME then false
  else if ca then
    if x.info.netscapeCertType.isPresent && x.exNscert &&& NS_SMIME_CA == 0 then false
    else checkCa x
  else if x.info.netscapeCertType.isPresent then x.exNscert &&& NS_SMIME == NS_SMIME
  else true

def checkPurposeSmimeSign : Bool :=
  let ret := purposeSmime x ca
  if !ret || ca then ret
  else !kuReject x (X509v3_KU_DIGITAL_SIGNATURE ||| X509v3_KU_NON_REPUDIATION)

def checkPurposeSmimeEncrypt : Bool :=
  let ret := purposeSmime x ca
  if !ret || ca then ret else !kuReject x X509v3_KU_KEY_ENCIPHERMENT

def checkPurposeCrlSign : Bool :=
  if ca then checkCa x else !kuReject x X509v3_KU_CRL_SIGN

def ocspHelper : Bool := if ca then checkCa x else true

def checkPurposeTimestampSign : Bool :=
  let allowed := X509v3_KU_NON_REPUDIATION ||| X509v3_KU_DIGITAL_SIGNATURE
  if ca then checkCa x
  else if x.info.keyUsage.isPresent &&
      (x.exKusage &&& ~~~allowed != 0 || x.exKusage &&& allowed == 0) then false
  else if !x.info.extKeyUsage.isPresent || x.exXkusage != XKU_TIMESTAMP then false
  else x.info.extKeyUsageCritical

def x509CheckPurpose (id : Int) (ca : Bool) : Bool :=
  if !x509v3CacheExtensions x then false
  else if id = -1 then true
  else if id = 1 then checkPurposeSslClient x ca
  else if id = 2 then checkPurposeSslServer x ca
  else if id = 3 then checkPurposeNsSslServer x ca
  else if id = 4 then checkPurposeSmimeSign x ca
  else if id = 5 then checkPurposeSmimeEncrypt x ca
  else if id = 6 then checkPurposeCrlSign x ca
  else if id = 7 then true
  else if id = 8 then ocspHelper x ca
  else if id = 9 then checkPurposeTimestampSign x ca
  else false

/-- A certificate is flagged as self-signed exactly if it passes as its own issuer. -/
theorem x509CheckIssued_self {x : X509} (hvalid : x509v3CacheExtensions x = true) :
    x509CheckIssued x x = .ok ↔ x.selfSigned = true := by
  unfold x509CheckIssued X509.selfSigned X509.selfIssued
  cases hname : x509NameEq x.info.subject x.info.issuer with
  | false => simp
  | true =>
    cases hakid : x.info.authorityKeyIdentifier.value? with
    | none => simp [hvalid, x509CheckAkid]
    | some akid =>
      by_cases hok : x509CheckAkid x (some akid) = .ok
      · simp [hvalid, hok]
      · simp [hvalid, hok]

end AwsLc
