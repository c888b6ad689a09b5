import AwsLc.Runs
import AwsLc.X509

/-!
# Extensions along a chain (`check_chain_extensions` in `crypto/x509/x509_vfy.c`)

RFC 5280 gives every certificate authority its own limit on the certificates below it, the
self-issued ones not counted.  The source compares one running counter, which starts at the leaf,
with the limits of the certificates that are not self-issued.
-/

namespace AwsLc

/-- The flags of `X509_VERIFY_PARAM`. -/
structure VerifyFlags where
  ignoreCritical : Bool := false
  /-- `AWSLC_V_ENABLE_EC_KEY_EXPLICIT_PARAMS` -/
  ecKeyExplicitParams : Bool := false
  trustedFirst : Bool := false
  partialChain : Bool := false
  noAltChains : Bool := false
  cbIssuerCheck : Bool := false
  checkSsSignature : Bool := false
  extendedCrlSupport : Bool := false
  useDeltas : Bool := false
  policyCheck : Bool := false
deriving DecidableEq, Repr

structure VerifyParam where
  flags : VerifyFlags
  purpose : Int
  trust : Int
  depth : Int
deriving DecidableEq, Repr

/-- The callbacks and settings of `X509_STORE_CTX`. -/
structure VerifyCtx where
  param : VerifyParam
  customCritOids : Option (List ObjectId)
  verifyCustomCritOids : X509 → List ObjectId → Bool
  /-- what `verify_cb` returns for an error at a depth -/
  verifyCb : X509V → Nat → Bool

def nullCallback : X509V → Nat → Bool := fun _ _ => false

variable (ctx : VerifyCtx)

/-- `call_verify_cb` for an error, which ends the pass unless the callback overrides it. -/
def callVerifyCb (error : X509V) (depth : Nat) : Except (X509V × Nat) Unit :=
  if ctx.verifyCb error depth then .ok () else .error (error, depth)

/-- The loop of `check_custom_critical_extensions`: every unknown extension is in the list. -/
def findCustomCritOids (known : List ObjectId) : List ObjectId → Option (List ObjectId)
  | [] => some []
  | oid :: oids =>
    if oid ∈ known then (findCustomCritOids known oids).map (oid :: ·) else none

def checkCustomCriticalExtensions (x : X509) : Bool :=
  match ctx.customCritOids with
  | none => false
  | some known =>
    if known.length = 0 then false
    else
      match findCustomCritOids known x.info.unsupportedCritical with
      | none => false
      | some found => ctx.verifyCustomCritOids x found

def checkCurveDecodedByName (x : X509) : Option Bool :=
  match x.info.publicKey with
  | .undecodable => none
  | .notEc => some true
  | .ec explicitParams => some !explicitParams

def checkCritical (i : Nat) (x : X509) : Except (X509V × Nat) Unit :=
  if !ctx.param.flags.ignoreCritical && x.hasUnsupportedCritical &&
      !checkCustomCriticalExtensions ctx x then
    callVerifyCb ctx .unhandledCriticalExtension i
  else .ok ()

def checkCurve (num i : Nat) (x : X509) : Except (X509V × Nat) Unit :=
  if num > 1 ∧ ctx.param.flags.ecKeyExplicitParams = false then
    match checkCurveDecodedByName x with
    | none => .error (.unspecified, i)
    | some false => .error (.ecKeyExplicitParams, i)
    | some true => .ok ()
  else .ok ()

def checkMustBeCa (i : Nat) (x : X509) : Except (X509V × Nat) Unit :=
  if i > 0 ∧ x509CheckCa x = false then callVerifyCb ctx .invalidCa i else .ok ()

def checkPurpose (i : Nat) (x : X509) : Except (X509V × Nat) Unit :=
  if ctx.param.purpose > 0 ∧ x509CheckPurpose x ctx.param.purpose (decide (i > 0)) = false then
    callVerifyCb ctx .invalidPurpose i
  else .ok ()

def checkPathLength (i : Nat) (plen : Int) (x : X509) : Except (X509V × Nat) Unit :=
  if i > 1 ∧ x.selfIssued = false ∧ x.exPathlen ≠ -1 ∧ plen - 1 > x.exPathlen then
    callVerifyCb ctx .pathLengthExceeded i
  else .ok ()

def nextPlen (plen : Int) (x : X509) : Int := if x.selfIssued then plen else plen + 1

def checkChainLoop (ctx : VerifyCtx) (num : Nat) :
    (i : Nat) → (plen : Int) → List X509 → Except (X509V × Nat) Unit
  | _, _, [] => .ok ()
  | i, plen, x :: chain => do
    checkCritical ctx i x
    checkCurve ctx num i x
    checkMustBeCa ctx i x
    checkPurpose ctx i x
    checkPathLength ctx i plen x
    checkChainLoop ctx num (i + 1) (nextPlen plen x) chain

def checkChainExtensions (chain : List X509) : Except (X509V × Nat) Unit :=
  checkChainLoop ctx chain.length 0 0 chain

/-! ### What the loop has checked -/

def nonSelfIssued (certs : List X509) : Nat := certs.countP (fun x => !x.selfIssued)

theorem nonSelfIssued_cons (x : X509) (certs : List X509) :
    nonSelfIssued (x :: certs) = nonSelfIssued certs + if x.selfIssued then 0 else 1 := by
  unfold nonSelfIssued
  rw [List.countP_cons]
  cases x.selfIssued <;> rfl

theorem nextPlen_eq (plen : Int) (x : X509) : nextPlen plen x = plen + nonSelfIssued [x] := by
  unfold nextPlen
  rw [nonSelfIssued_cons]
  cases x.selfIssued with
  | true => exact (add_zero plen).symm
  | false => rfl

variable {ctx : VerifyCtx}
variable (hcb : ctx.verifyCb = nullCallback)
include hcb

theorem callVerifyCb_null (error : X509V) (depth : Nat) :
    callVerifyCb ctx error depth = .error (error, depth) := by
  unfold callVerifyCb
  rw [hcb]
  rfl

theorem checkMustBeCa_ca {i : Nat} {x : X509} (hi : 0 < i) (h : checkMustBeCa ctx i x = .ok ()) :
    x509CheckCa x = true := by
  by_contra hca
  rw [Bool.not_eq_true] at hca
  unfold checkMustBeCa at h
  rw [if_pos ⟨hi, hca⟩, callVerifyCb_null hcb] at h
  cases h

theorem checkPathLength_le {i : Nat} {plen : Int} {x : X509}
    (hi : 1 < i) (hself : x.selfIssued = false) (hlimit : x.exPathlen ≠ -1)
    (h : checkPathLength ctx i plen x = .ok ()) : plen - 1 ≤ x.exPathlen := by
  by_contra hlarge
  unfold checkPathLength at h
  rw [if_pos ⟨hi, hself, hlimit, not_le.mp hlarge⟩, callVerifyCb_null hcb] at h
  cases h

omit hcb

structure CertPassed (ctx : VerifyCtx) (num i : Nat) (plen : Int) (x : X509) : Prop where
  critical : checkCritical ctx i x = .ok ()
  curve : checkCurve ctx num i x = .ok ()
  ca : checkMustBeCa ctx i x = .ok ()
  purpose : checkPurpose ctx i x = .ok ()
  pathLength : checkPathLength ctx i plen x = .ok ()

theorem checkChainLoop_cons {num i : Nat} {plen : Int} {x : X509} {chain : List X509} :
    checkChainLoop ctx num i plen (x :: chain) = .ok () ↔ CertPassed ctx num i plen x ∧
        checkChainLoop ctx num (i + 1) (nextPlen plen x) chain = .ok () := by
  constructor
  · intro h
    obtain ⟨_, hcritical, h⟩ := except_bind_ok h
    obtain ⟨_, hcurve, h⟩ := except_bind_ok h
    obtain ⟨_, hca, h⟩ := except_bind_ok h
    obtain ⟨_, hpurpose, h⟩ := except_bind_ok h
    obtain ⟨_, hlength, h⟩ := except_bind_ok h
    exact ⟨⟨hcritical, hcurve, hca, hpurpose, hlength⟩, h⟩
  · rintro ⟨hpassed, h⟩
    unfold checkChainLoop
    rw [hpassed.critical, hpassed.curve, hpassed.ca, hpassed.purpose, hpassed.pathLength]
    exact h

/-- The loop has passed every certificate, with the counter at the number of certificates below it
    that are not self-issued. -/
theorem checkChainLoop_at {num i : Nat} {plen : Int} {before after : List X509} {x : X509}
    (h : checkChainLoop ctx num i plen (before ++ x :: after) = .ok ()) :
    CertPassed ctx num (i + before.length) (plen + nonSelfIssued before) x := by
  induction before generalizing i plen with
  | nil =>
    rw [show plen + (nonSelfIssued [] : Int) = plen from add_zero plen]
    exact (checkChainLoop_cons.mp h).1
  | cons first before ih =>
    have hpassed := ih (checkChainLoop_cons.mp h).2
    have hposition : i + (first :: before).length = i + 1 + before.length := by
      rw [List.length_cons]
      omega
    have hcount : plen + (nonSelfIssued (first :: before) : Int) =
        nextPlen plen first + nonSelfIssued before := by
      rw [nextPlen_eq, nonSelfIssued_cons, nonSelfIssued_cons]
      push_cast
      rw [show nonSelfIssued [] = 0 from rfl]
      ring
    rw [hposition, hcount]
    exact hpassed

/-! ### Path lengths -/

def X509.pathLenConstraint (x : X509) : Option Int :=
  x.info.basicConstraints.value?.bind BasicConstraints.pathlen

/-- What RFC 5280 asks of the certificate at a position: no more certificates between it and the
    leaf than its limit, not counting those that are self-issued. -/
def PathLengthOk (chain : List X509) (i : Nat) : Prop :=
  ∀ x limit, chain[i]? = some x → x.pathLenConstraint = some limit →
    (nonSelfIssued ((chain.take i).drop 1) : Int) ≤ limit

/-- A chain, the length of which is an `int`. -/
structure CertChain where
  certs : List X509
  length_le : certs.length ≤ INT_MAX

/-- The cached value of a limit, for a certificate with valid extensions: the limit, unless it is
    more than any chain can reach. -/
theorem exPathlen_of_valid {x : X509} {limit : Int} (hvalid : x509v3CacheExtensions x = true)
    (h : x.pathLenConstraint = some limit) :
    0 ≤ limit ∧ (x.exPathlen = limit ∨ (LONG_MAX : Int) < limit) := by
  obtain ⟨bs, hbs, hlimit⟩ := Option.bind_eq_some_iff.mp h
  have hpresent : x.info.basicConstraints = .present bs := by
    cases hcase : x.info.basicConstraints with
    | absent => rw [hcase] at hbs; cases hbs
    | invalid => rw [hcase] at hbs; cases hbs
    | present value =>
      rw [hcase] at hbs
      rw [Option.some.inj hbs]
  have hgood : x.badPathlen = false := by
    unfold x509v3CacheExtensions X509.invalid at hvalid
    cases hbad : x.badPathlen with
    | false => rfl
    | true => simp [hbad] at hvalid
  simp only [X509.badPathlen, hpresent, hlimit, Bool.or_eq_false_iff, decide_eq_false_iff_not,
    Bool.not_eq_eq_eq_not, Bool.not_false] at hgood
  refine ⟨not_lt.mp hgood.1, ?_⟩
  simp only [X509.exPathlen, hpresent, hlimit]
  rw [if_neg (by rw [hgood.2]; simpa using hgood.1)]
  unfold asn1IntegerGet
  by_cases hfits : limit ≤ (LONG_MAX : Int)
  · left
    rw [if_pos ⟨by have hzero := not_lt.mp hgood.1; omega, hfits⟩]
  · right
    exact not_le.mp hfits

theorem nonSelfIssued_le_length (certs : List X509) : nonSelfIssued certs ≤ certs.length :=
  List.countP_le_length

/-- **The limits that are kept.**  Where neither the leaf nor the certificate is self-issued, a
    chain that passes keeps the limit of the certificate. -/
theorem pathLengthOk_of_check (hcb : ctx.verifyCb = nullCallback) {chain : CertChain} {i : Nat}
    (hi : 1 < i) (hleaf : ∀ x, chain.certs[0]? = some x → x.selfIssued = false)
    (hcert : ∀ x, chain.certs[i]? = some x → x.selfIssued = false)
    (h : checkChainExtensions ctx chain.certs = .ok ()) : PathLengthOk chain.certs i := by
  intro x limit hx hlimit
  obtain ⟨hlt, hget⟩ := List.getElem?_eq_some_iff.mp hx
  have hsplit : chain.certs = chain.certs.take i ++ x :: chain.certs.drop (i + 1) := by
    rw [← hget, ← List.drop_eq_getElem_cons hlt, List.take_append_drop]
  have hlength : (chain.certs.take i).length = i := by
    rw [List.length_take]
    omega
  have hlong := chain.length_le
  unfold checkChainExtensions at h
  rw [hsplit] at h
  have hpassed := checkChainLoop_at h
  rw [hlength] at hpassed
  have hca := checkMustBeCa_ca hcb (by omega) hpassed.ca
  have hvalid : x509v3CacheExtensions x = true := by
    unfold x509CheckCa at hca
    rw [Bool.and_eq_true] at hca
    exact hca.1
  obtain ⟨hpos, hcached⟩ := exPathlen_of_valid hvalid hlimit
  have hcount := nonSelfIssued_le_length ((chain.certs.take i).drop 1)
  rw [List.length_drop, hlength] at hcount
  rcases hcached with hcached | hlarge
  · have hle := checkPathLength_le hcb (by omega) (hcert x hx) (by omega) hpassed.pathLength
    -- the counter has the leaf in it
    cases hcerts : chain.certs with
    | nil => rw [hcerts] at hlt; exact absurd hlt (Nat.not_lt_zero i)
    | cons leaf rest =>
      have hleafFalse := hleaf leaf (by rw [hcerts]; rfl)
      obtain ⟨above, rfl⟩ : ∃ above, i = above + 1 := ⟨i - 1, by omega⟩
      rw [hcerts, List.take_succ_cons, nonSelfIssued_cons, hleafFalse] at hle
      rw [List.take_succ_cons, List.drop_one, List.tail_cons]
      push_cast at hle
      omega
  · have hmax : (INT_MAX : Int) ≤ LONG_MAX := by decide
    omega

/-- A certificate of a certificate authority, self-issued or not, with or without a limit. -/
def sampleCa (selfIssued : Bool) (limit : Option Int) : X509 :=
  { address := 0
    info :=
      { version1 := false
        serialNumber := 1
        issuer := ⟨[], [0]⟩
        subject := ⟨[], if selfIssued then [0] else [1]⟩
        publicKey := .notEc
        basicConstraints := .present ⟨true, limit⟩
        keyUsage := .absent
        extKeyUsage := .absent
        extKeyUsageCritical := false
        netscapeCertType := .absent
        subjectKeyIdentifier := .absent
        authorityKeyIdentifier := .absent
        subjectAltName := .absent
        nameConstraints := .absent
        crlDistributionPoints := .absent
        certificatePolicies := .absent
        policyMappings := .absent
        policyConstraints := .absent
        inhibitAnyPolicy := .absent
        unsupportedCritical := [] }
    aux := none }

def sampleCtx : VerifyCtx :=
  { param := { flags := {}, purpose := 0, trust := 0, depth := 100 }
    customCritOids := none
    verifyCustomCritOids := fun _ _ => false
    verifyCb := nullCallback }

theorem four_le_INT_MAX : 4 ≤ INT_MAX := by decide

def sampleChain (leafSelfIssued certSelfIssued : Bool) : CertChain :=
  { certs := [sampleCa leafSelfIssued none, sampleCa false none,
      sampleCa certSelfIssued (some 0), sampleCa true none]
    length_le := four_le_INT_MAX }

/-- **Limits that are not kept.**  A self-issued authority may have a certificate below it although
    its limit is zero, and so may any authority where the leaf is self-issued. -/
theorem path_length_not_kept :
    (checkChainExtensions sampleCtx (sampleChain false true).certs = .ok () ∧
      ¬PathLengthOk (sampleChain false true).certs 2) ∧
    (checkChainExtensions sampleCtx (sampleChain true false).certs = .ok () ∧
      ¬PathLengthOk (sampleChain true false).certs 2) := by
  refine ⟨⟨rfl, fun h => ?_⟩, rfl, fun h => ?_⟩
  · exact absurd (h _ 0 rfl rfl) (by decide)
  · exact absurd (h _ 0 rfl rfl) (by decide)

/-- **Path lengths.**  Without a callback, every chain that passes keeps the limits of its
    intermediate authorities if and only if neither the authority nor the leaf is self-issued. -/
theorem path_length_iff (leafSelfIssued certSelfIssued : Bool) :
    (∀ (ctx : VerifyCtx) (chain : CertChain) (i : Nat), ctx.verifyCb = nullCallback →
        1 < i → i < chain.certs.length - 1 →
        chain.certs[0]?.map X509.selfIssued = some leafSelfIssued →
        chain.certs[i]?.map X509.selfIssued = some certSelfIssued →
        checkChainExtensions ctx chain.certs = .ok () → PathLengthOk chain.certs i) ↔
      leafSelfIssued = false ∧ certSelfIssued = false := by
  constructor
  · intro h
    by_contra hpattern
    have hpassed : checkChainExtensions sampleCtx
        (sampleChain leafSelfIssued certSelfIssued).certs = .ok () := by
      cases leafSelfIssued with
      | true => cases certSelfIssued <;> rfl
      | false =>
        cases certSelfIssued with
        | true => rfl
        | false => exact absurd ⟨rfl, rfl⟩ hpattern
    have hkept := h sampleCtx (sampleChain leafSelfIssued certSelfIssued) 2 rfl (by decide)
      (show 2 < 3 by decide) (by cases leafSelfIssued <;> rfl) (by cases certSelfIssued <;> rfl)
      hpassed
    have hcount : nonSelfIssued
        (((sampleChain leafSelfIssued certSelfIssued).certs.take 2).drop 1) = 1 := rfl
    have hle := hkept _ 0 rfl rfl
    rw [hcount] at hle
    exact absurd hle (by decide)
  · rintro ⟨rfl, rfl⟩ ctx chain i hcb hi - hleaf hcert h
    apply pathLengthOk_of_check hcb hi _ _ h
    · intro x hx
      rw [hx] at hleaf
      exact Option.some.inj hleaf
    · intro x hx
      rw [hx] at hcert
      exact Option.some.inj hcert

end AwsLc
