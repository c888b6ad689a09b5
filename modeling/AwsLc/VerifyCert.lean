import AwsLc.ChainExtensions

/-!
# Building and verifying a chain of certificates

`X509_verify_cert` appends issuers to the certificate, first from the list that the peer sent, then
from the trust store.  If what it has found is not trusted, it cuts the chain back to a certificate
that the store has another issuer for, and tries again.  The signatures are verified at the end.

The checks of single certificates and the lookups in the store are parameters.
-/

namespace AwsLc

open List

/-! ### Checks and lookups -/

/-- The result of `X509_check_trust`. -/
inductive TrustResult where
  | trusted
  | rejected
  | untrusted
deriving DecidableEq, Repr

/-- What the verification asks of single certificates, of the store and of whole chains. -/
structure ChainChecks where
  /-- `X509_check_issued` passes, for a certificate and its issuer -/
  issued : X509 → X509 → Bool
  /-- `cert_self_signed`, `none` for invalid extensions -/
  selfSigned : X509 → Option Bool
  /-- `X509_cmp` compares hashes of the encoded certificates -/
  certHash : X509 → Bytes
  /-- a certificate that is not flagged as self-signed does not pass as its own issuer -/
  not_issued_self : ∀ x, selfSigned x = some false → issued x x = false
  /-- what is asked of a certificate by these two depends on its contents only -/
  selfSigned_congr : ∀ x y, certHash x = certHash y → selfSigned x = selfSigned y
  issued_congr : ∀ x y issuer, certHash x = certHash y → issued x issuer = issued y issuer
  /-- `x509_check_cert_time` -/
  certTime : X509 → X509V
  /-- `X509_check_trust` for the trust setting of the parameters -/
  checkTrust : X509 → TrustResult
  /-- `X509_get0_pubkey` returns a key -/
  hasPubkey : X509 → Bool
  /-- `X509_verify` of the signature of a certificate with the key of another one -/
  verify : X509 → X509 → Bool
  /-- `X509_STORE_CTX_get_by_subject` -/
  getBySubject : X509Name → Option X509
  /-- the certificates of the cache with a subject, from `X509_OBJECT_idx_by_subject` on -/
  objsBySubject : X509Name → List X509
  /-- `X509_STORE_CTX_get1_certs` -/
  get1Certs : X509Name → Option (List X509)
  chainExtensions : List X509 → X509V
  checkId : List X509 → X509V
  revocation : List X509 → X509V
  blockedSpki : List X509 → X509V
  nameConstraints : List X509 → X509V
  policy : List X509 → X509V

/-- The inputs of `X509_STORE_CTX`, not used for a verification before. -/
structure X509StoreCtx where
  cert : X509
  untrusted : List X509
  trustedStack : Option (List X509)
  param : VerifyParam

inductive CertOrigin where
  | leaf
  | untrusted
  | store
deriving DecidableEq, Repr

structure ChainCert where
  cert : X509
  origin : CertOrigin
deriving DecidableEq, Repr

/-- The variables of `X509_verify_cert`. -/
structure PathState where
  chain : List ChainCert
  lastUntrusted : Nat
  num : Nat
  x : X509
  chainSs : Option X509
deriving DecidableEq, Repr

/-- The loop of `find_issuer`: the last issuer of the list, or the first one that is valid now. -/
def findIssuerLoop (checks : ChainChecks) (x : X509) :
    List X509 → (candidate : Option X509) → Option X509
  | [], candidate => candidate
  | issuer :: sk, candidate =>
    if checks.issued x issuer then
      if checks.certTime issuer = .ok then some issuer else findIssuerLoop checks x sk (some issuer)
    else findIssuerLoop checks x sk candidate

variable (checks : ChainChecks)

def findIssuer (sk : List X509) (x : X509) : Option X509 :=
  findIssuerLoop checks x sk none

def get1Issuer (x : X509) : Option X509 :=
  match checks.getBySubject x.info.issuer with
  | none => none
  | some obj =>
    if checks.issued x obj ∧ checks.certTime obj = .ok then some obj
    else findIssuer checks (checks.objsBySubject x.info.issuer) x

variable (ctx : X509StoreCtx)

def getIssuer (x : X509) : Option X509 :=
  match ctx.trustedStack with
  | some sk => findIssuer checks sk x
  | none => get1Issuer checks x

def lookupCertMatch (x : X509) : Option X509 :=
  match checks.get1Certs x.info.subject with
  | none => none
  | some certs => certs.find? (fun xtmp => checks.certHash xtmp = checks.certHash x)

/-- The loop of `check_trust`, `untrusted` if it gets to the end. -/
def checkTrustLoop (checks : ChainChecks) : List ChainCert → TrustResult
  | [] => .untrusted
  | c :: certs =>
    match checks.checkTrust c.cert with
    | .untrusted => checkTrustLoop checks certs
    | decided => decided

/-- `check_trust`, without a callback. -/
def checkTrust (st : PathState) : TrustResult × PathState :=
  match checkTrustLoop checks (st.chain.drop st.lastUntrusted) with
  | .untrusted =>
    if ctx.param.flags.partialChain then
      if st.lastUntrusted < st.chain.length then (.trusted, st)
      else
        match st.chain with
        | [] => (.untrusted, st)
        | c :: certs =>
          match lookupCertMatch checks c.cert with
          | some mx => (.trusted, { st with chain := ⟨mx, .store⟩ :: certs, lastUntrusted := 0 })
          | none => (.untrusted, st)
    else (.untrusted, st)
  | decided => (decided, st)

/-! ### The loops of `X509_verify_cert` -/

def maxChain (depth : Int) : Int := if depth ≥ INT_MAX - 2 then INT_MAX else depth + 2

def chainRoom (num : Nat) : Nat := (maxChain ctx.param.depth - num).toNat

def untrustedLoop (checks : ChainChecks) (ctx : X509StoreCtx) :
    (room : Nat) → (sktmp : List X509) → PathState → Except X509V PathState
  | 0, _, st => .ok st
  | room + 1, sktmp, st =>
    match checks.selfSigned st.x with
    | none => .error .invalidExtension
    | some true => .ok st
    | some false =>
      if ctx.param.flags.trustedFirst ∧ (getIssuer checks ctx st.x).isSome then .ok st
      else
        match findIssuer checks sktmp st.x with
        | none => .ok st
        | some xtmp =>
          untrustedLoop checks ctx room (sktmp.erase xtmp)
            { st with
              chain := st.chain ++ [⟨xtmp, .untrusted⟩]
              lastUntrusted := st.lastUntrusted + 1
              num := st.num + 1
              x := xtmp }

/-- The start of a round: a self-signed certificate at the end of the chain is replaced by the one
    of the store if it is alone, and otherwise put aside. -/
def examineLast (j : Nat) (st : PathState) : Except X509V (Nat × PathState) :=
  match st.chain.getLast? with
  | none => .error .unspecified
  | some ⟨x, _⟩ =>
    match checks.selfSigned x with
    | none => .error .invalidExtension
    | some false => .ok (j, { st with x := x })
    | some true =>
      if st.chain.length = 1 then
        match getIssuer checks ctx x with
        | none => .error .depthZeroSelfSignedCert
        | some xtmp =>
          if checks.certHash x ≠ checks.certHash xtmp then .error .depthZeroSelfSignedCert
          else .ok (j, { st with chain := [⟨xtmp, .store⟩], lastUntrusted := 0, x := xtmp })
      else
        match st.chain.dropLast[st.num - 1 - 1]? with
        | none => .error .unspecified
        | some last =>
          .ok (j - 1,
            { chain := st.chain.dropLast
              lastUntrusted := st.lastUntrusted - 1
              num := st.num - 1
              x := last.cert
              chainSs := some x })

def storeLoop (checks : ChainChecks) (ctx : X509StoreCtx) :
    (room : Nat) → PathState → Except X509V PathState
  | 0, st => .ok st
  | room + 1, st =>
    match checks.selfSigned st.x with
    | none => .error .invalidExtension
    | some true => .ok st
    | some false =>
      match getIssuer checks ctx st.x with
      | none => .ok st
      | some xtmp =>
        match checkTrust checks ctx
            { st with chain := st.chain ++ [⟨xtmp, .store⟩], x := xtmp } with
        | (.untrusted, st') => storeLoop checks ctx room { st' with num := st'.num + 1 }
        | (_, st') => .ok st'

/-- The search for an alternate chain, `while (j-- > 1)`: the length to cut the chain to. -/
def findAlternate (checks : ChainChecks) (ctx : X509StoreCtx) (chain : List ChainCert) :
    (j : Nat) → Option Nat
  | 0 => none
  | 1 => none
  | j + 2 =>
    match chain[j]? with
    | none => none
    | some xtmp2 =>
      if (getIssuer checks ctx xtmp2.cert).isSome then some (j + 1)
      else findAlternate checks ctx chain (j + 1)

def PathState.cutTo (st : PathState) (j : Nat) : PathState :=
  let chain := st.chain.take (st.chain.length - (st.num - j))
  { st with chain := chain, lastUntrusted := chain.length, num := min st.num j }

inductive RoundResult where
  | done (trust : TrustResult) (st : PathState)
  | retry (j : Nat) (st : PathState)

def buildRound (j : Nat) (st : PathState) : Except X509V RoundResult := do
  let (j, st) ← examineLast checks ctx j st
  let st ← storeLoop checks ctx (chainRoom ctx st.num) st
  match checkTrust checks ctx st with
  | (.rejected, _) => .error .certRejected
  | (.trusted, st) => .ok (.done .trusted st)
  | (.untrusted, st) =>
    if ctx.param.flags.trustedFirst ∨ ctx.param.flags.noAltChains then
      .ok (.done .untrusted st)
    else
      match findAlternate checks ctx st.chain j with
      | none => .ok (.done .untrusted st)
      | some j' => .ok (.retry j' (st.cutTo j'))

variable {chain : List ChainCert} {checks : ChainChecks} {ctx : X509StoreCtx} {j : Nat}

/-- Every retry has fewer certificates of the peer left, and at least the leaf. -/
theorem findAlternate_lt {j' : Nat} (h : findAlternate checks ctx chain j = some j') :
    0 < j' ∧ j' < j := by
  fun_induction findAlternate checks ctx chain j with
  | case1 => cases h
  | case2 => cases h
  | case3 j hnone => cases h
  | case4 j xtmp2 hxtmp2 hissuer =>
    cases h
    omega
  | case5 j xtmp2 hxtmp2 hissuer ih =>
    have hlt := ih h
    omega

variable {st st' : PathState}

theorem examineLast_le {j' : Nat} (h : examineLast checks ctx j st = .ok (j', st')) : j' ≤ j := by
  unfold examineLast at h
  repeat' split at h
  all_goals
    cases h
    try omega

theorem buildRound_ok {result : RoundResult} (h : buildRound checks ctx j st = .ok result) :
    ∃ j₁ st₁ st₂, examineLast checks ctx j st = .ok (j₁, st₁) ∧
      storeLoop checks ctx (chainRoom ctx st₁.num) st₁ = .ok st₂ ∧
      ((∃ st₃, checkTrust checks ctx st₂ = (.trusted, st₃) ∧ result = .done .trusted st₃) ∨
        ∃ st₃, checkTrust checks ctx st₂ = (.untrusted, st₃) ∧ (result = .done .untrusted st₃ ∨
            ∃ j', findAlternate checks ctx st₃.chain j₁ = some j' ∧
              result = .retry j' (st₃.cutTo j'))) := by
  obtain ⟨⟨j₁, st₁⟩, hexamine, h⟩ := except_bind_ok h
  obtain ⟨st₂, hstore, h⟩ := except_bind_ok h
  refine ⟨j₁, st₁, st₂, hexamine, hstore, ?_⟩
  rcases htrust : checkTrust checks ctx st₂ with ⟨trust, st₃⟩
  rw [htrust] at h
  cases trust with
  | rejected => cases h
  | trusted => exact .inl ⟨st₃, rfl, (Except.ok.inj h).symm⟩
  | untrusted =>
    refine .inr ⟨st₃, rfl, ?_⟩
    dsimp only at h
    split at h
    · exact .inl (Except.ok.inj h).symm
    · split at h
      · exact .inl (Except.ok.inj h).symm
      · next j' hj' => exact .inr ⟨j', hj', (Except.ok.inj h).symm⟩

theorem buildRound_retry_lt {j' : Nat} (h : buildRound checks ctx j st = .ok (.retry j' st')) :
    j' < j := by
  obtain ⟨j₁, st₁, st₂, hexamine, -, hend⟩ := buildRound_ok h
  rcases hend with ⟨st₃, -, hdone⟩ | ⟨st₃, -, hdone | ⟨j₂, hfind, hretry⟩⟩
  · cases hdone
  · cases hdone
  · cases hretry
    exact Nat.lt_of_lt_of_le (findAlternate_lt hfind).2 (examineLast_le hexamine)

def buildLoop (checks : ChainChecks) (ctx : X509StoreCtx) (j : Nat) (st : PathState) :
    Except X509V (TrustResult × PathState) :=
  match h : buildRound checks ctx j st with
  | .error e => .error e
  | .ok (.done trust st') => .ok (trust, st')
  | .ok (.retry j' st') =>
    have : j' < j := buildRound_retry_lt h
    buildLoop checks ctx j' st'
termination_by j

variable (checks)

def untrustedError (st : PathState) : X509V :=
  match st.chainSs with
  | some chainSs =>
    if checks.issued st.x chainSs then .selfSignedCertInChain
    else if st.lastUntrusted ≥ st.num then .unableToGetIssuerCertLocally
    else .unableToGetIssuerCert
  | none =>
    if st.lastUntrusted ≥ st.num then .unableToGetIssuerCertLocally else .unableToGetIssuerCert

variable (ctx)

def startPath : PathState :=
  { chain := [⟨ctx.cert, .leaf⟩], lastUntrusted := 1, num := 1, x := ctx.cert, chainSs := none }

/-- The part of `X509_verify_cert` that builds a trusted chain. -/
def buildChain : Except X509V (List ChainCert) := do
  let st ← untrustedLoop checks ctx (chainRoom ctx 1) ctx.untrusted (startPath ctx)
  let (trust, st) ← buildLoop checks ctx st.num st
  if trust ≠ .trusted then .error (untrustedError checks st) else .ok st.chain

def require (ret : X509V) : Except X509V Unit := if ret = .ok then .ok () else .error ret

/-- The signature check of `internal_verify`, skipped for a certificate that is its own issuer. -/
def checkSignature (xi xs : X509) : X509V :=
  if xs ≠ xi ∨ ctx.param.flags.checkSsSignature then
    if !checks.hasPubkey xi then .unableToDecodeIssuerPublicKey
    else if !checks.verify xs xi then .certSignatureFailure
    else .ok
  else .ok

/-- The loop of `internal_verify`, down to the leaf. -/
def verifyLoop (checks : ChainChecks) (ctx : X509StoreCtx) :
    (xi : X509) → List X509 → Except X509V X509
  | xi, [] => .ok xi
  | xi, xs :: certs => do
    require (checkSignature checks ctx xi xs)
    require (checks.certTime xs)
    verifyLoop checks ctx xs certs

/-- The signatures and times of a chain, from its end, where the last certificate may be its own
    issuer or end a partial chain. -/
def verifyFromEnd : List X509 → Except X509V X509
  | [] => .error .unspecified
  | xi :: certs =>
    if checks.issued xi xi then verifyLoop checks ctx xi (xi :: certs)
    else if ctx.param.flags.partialChain then do
      require (checks.certTime xi)
      verifyLoop checks ctx xi certs
    else if certs = [] then .error .unableToVerifyLeafSignature
    else verifyLoop checks ctx xi certs

def internalVerify (chain : List X509) : Except X509V Unit := do
  let xs ← verifyFromEnd checks ctx chain.reverse
  if checks.hasPubkey xs then .ok () else .error .unableToGetCertsPublicKey

/-- `X509_verify_cert` without a callback: the chain, or the error. -/
def x509VerifyCert : Except X509V (List ChainCert) := do
  if ctx.param.flags.extendedCrlSupport ∨ ctx.param.flags.useDeltas then .error .invalidCall
  else
    let chain ← buildChain checks ctx
    let certs := chain.map ChainCert.cert
    require (checks.chainExtensions certs)
    require (checks.checkId certs)
    require (checks.revocation certs)
    require (checks.blockedSpki certs)
    internalVerify checks ctx certs
    require (checks.nameConstraints certs)
    require (if ctx.param.flags.policyCheck then checks.policy certs else .ok)
    .ok chain

def FromStore (x : X509) : Prop :=
  (∃ sk, ctx.trustedStack = some sk ∧ x ∈ sk) ∨
    ∃ name, checks.getBySubject name = some x ∨ x ∈ checks.objsBySubject name ∨
      ∃ certs, checks.get1Certs name = some certs ∧ x ∈ certs

variable {ctx}
variable {checks}

theorem findIssuerLoop_spec {x issuer : X509} {sk : List X509} {candidate : Option X509}
    (h : findIssuerLoop checks x sk candidate = some issuer) :
    candidate = some issuer ∨ issuer ∈ sk ∧ checks.issued x issuer = true := by
  fun_induction findIssuerLoop checks x sk candidate with
  | case1 candidate => exact .inl h
  | case2 first sk candidate hissued htime =>
    cases h
    exact .inr ⟨mem_cons_self, hissued⟩
  | case3 first sk candidate hissued htime ih =>
    rcases ih h with hfirst | ⟨hmem, hok⟩
    · cases hfirst
      exact .inr ⟨mem_cons_self, hissued⟩
    · exact .inr ⟨mem_cons_of_mem first hmem, hok⟩
  | case4 first sk candidate hissued ih =>
    rcases ih h with hcandidate | ⟨hmem, hok⟩
    · exact .inl hcandidate
    · exact .inr ⟨mem_cons_of_mem first hmem, hok⟩

theorem findIssuer_spec {x issuer : X509} {sk : List X509}
    (h : findIssuer checks sk x = some issuer) : issuer ∈ sk ∧ checks.issued x issuer = true := by
  rcases findIssuerLoop_spec h with hnone | hfound
  · cases hnone
  · exact hfound

theorem getIssuer_spec {x issuer : X509} (h : getIssuer checks ctx x = some issuer) :
    FromStore checks ctx issuer ∧ checks.issued x issuer = true := by
  unfold getIssuer at h
  split at h
  · next sk hsk =>
    obtain ⟨hmem, hissued⟩ := findIssuer_spec h
    exact ⟨.inl ⟨sk, hsk, hmem⟩, hissued⟩
  · unfold get1Issuer at h
    split at h
    · cases h
    · next obj hobj =>
      split at h
      · next hok =>
        cases h
        exact ⟨.inr ⟨x.info.issuer, .inl hobj⟩, hok.1⟩
      · obtain ⟨hmem, hissued⟩ := findIssuer_spec h
        exact ⟨.inr ⟨x.info.issuer, .inr (.inl hmem)⟩, hissued⟩

theorem lookupCertMatch_spec (ctx : X509StoreCtx) {x mx : X509}
    (h : lookupCertMatch checks x = some mx) :
    FromStore checks ctx mx ∧ checks.certHash mx = checks.certHash x := by
  unfold lookupCertMatch at h
  split at h
  · cases h
  · next certs hcerts =>
    refine ⟨.inr ⟨x.info.subject, .inr (.inr ⟨certs, hcerts, List.mem_of_find?_eq_some h⟩)⟩, ?_⟩
    exact of_decide_eq_true (List.find?_some h :)

/-! ### The invariant of the chain -/

def Link (checks : ChainChecks) (c next : ChainCert) : Prop :=
  checks.selfSigned c.cert = some false ∧ checks.issued c.cert next.cert = true

/-- Linked certificates are different objects, so that the signature check is not skipped. -/
theorem Link.ne {c next : ChainCert} (h : Link checks c next) : c.cert ≠ next.cert := by
  intro heq
  have hself := checks.not_issued_self c.cert h.1
  have hissued := h.2
  rw [← heq, hself] at hissued
  cases hissued

/-- A copy with the same contents has the same issuers. -/
theorem Link.congr {c copy next : ChainCert} (h : Link checks c next)
    (hhash : checks.certHash copy.cert = checks.certHash c.cert) : Link checks copy next :=
  ⟨(checks.selfSigned_congr _ _ hhash).trans h.1, (checks.issued_congr _ _ _ hhash).trans h.2⟩

structure ChainOk (checks : ChainChecks) (ctx : X509StoreCtx) (chain : List ChainCert) : Prop where
  first : ∃ c, chain.head? = some c ∧ checks.certHash c.cert = checks.certHash ctx.cert
  linked : chain.IsChain (Link checks)
  size : (chain.length : Int) ≤ max 1 (maxChain ctx.param.depth)

def Anchor (checks : ChainChecks) (ctx : X509StoreCtx) (c : ChainCert) : Prop :=
  c.origin = .store ∧ FromStore checks ctx c.cert

/-- A chain with a store certificate that is trusted by itself or ends a partial chain. -/
def TrustedChain (checks : ChainChecks) (ctx : X509StoreCtx) (chain : List ChainCert) : Prop :=
  ChainOk checks ctx chain ∧ ∃ c ∈ chain, Anchor checks ctx c ∧
    (checks.checkTrust c.cert = .trusted ∨ ctx.param.flags.partialChain = true)

structure PathOk (checks : ChainChecks) (ctx : X509StoreCtx) (st : PathState) : Prop
    extends ChainOk checks ctx st.chain where
  last : ∃ c, st.chain.getLast? = some c ∧ c.cert = st.x
  anchors : ∀ c ∈ st.chain.drop st.lastUntrusted, Anchor checks ctx c
  boundary : st.lastUntrusted ≤ st.chain.length

namespace PathOk

variable {checks : ChainChecks} {ctx : X509StoreCtx} {st : PathState}
variable (h : PathOk checks ctx st)
include h

theorem ne_nil : st.chain ≠ [] := by
  intro hnil
  obtain ⟨c, hc, -⟩ := h.first
  rw [hnil] at hc
  cases hc

theorem push (entry : ChainCert) {boundary num : Nat}
    (hself : checks.selfSigned st.x = some false) (hissued : checks.issued st.x entry.cert = true)
    (hroom : (st.chain.length : Int) < maxChain ctx.param.depth)
    (hboundary : boundary = st.chain.length + 1 ∨
      boundary = st.lastUntrusted ∧ Anchor checks ctx entry) :
    PathOk checks ctx
      { st with
        chain := st.chain ++ [entry], lastUntrusted := boundary, num := num, x := entry.cert } where
  first := by
    obtain ⟨c, hc, hhash⟩ := h.first
    exact ⟨c, by simp [List.head?_append, hc], hhash⟩
  last := ⟨entry, by simp, rfl⟩
  linked := by
    refine List.IsChain.append h.linked (isChain_singleton entry) ?_
    intro c hc next hnext
    obtain ⟨last, hlast, hx⟩ := h.last
    rw [hlast] at hc
    cases hc
    cases hnext
    rw [Link, hx]
    exact ⟨hself, hissued⟩
  anchors := by
    intro c hc
    rcases hboundary with hend | ⟨hsame, hstore⟩
    · rw [hend, drop_of_length_le (by simp)] at hc
      cases hc
    · rw [hsame, drop_append_of_le_length h.boundary] at hc
      rcases mem_append.mp hc with hold | hnew
      · exact h.anchors c hold
      · rw [mem_singleton.mp hnew]
        exact hstore
  boundary := by
    have hb := h.boundary
    dsimp only
    rw [length_append, length_singleton]
    omega
  size := by
    dsimp only
    rw [length_append, length_singleton]
    omega

theorem cut {n boundary num : Nat} {chainSs : Option X509} {c : ChainCert}
    (hlast : (st.chain.take n).getLast? = some c)
    (hboundary : boundary = (st.chain.take n).length) :
    PathOk checks ctx
      { chain := st.chain.take n, lastUntrusted := boundary, num := num, x := c.cert,
        chainSs := chainSs } where
  first := by
    obtain ⟨first, hfirst, hhash⟩ := h.first
    refine ⟨first, ?_, hhash⟩
    rw [List.head?_take, if_neg, hfirst]
    intro hzero
    rw [hzero] at hlast
    cases hlast
  last := ⟨c, hlast, rfl⟩
  linked := h.linked.take n
  anchors := by
    intro d hd
    rw [hboundary, drop_length] at hd
    cases hd
  boundary := hboundary.le
  size := by
    have hsize := h.size
    have hle := length_take_le' n st.chain
    dsimp only
    omega

end PathOk

variable {checks : ChainChecks} {ctx : X509StoreCtx}

theorem chainRoom_succ {num room : Nat} (h : room + 1 = chainRoom ctx num) :
    (num : Int) < maxChain ctx.param.depth ∧ room = chainRoom ctx (num + 1) := by
  unfold chainRoom at *
  omega

theorem startPath_ok (checks : ChainChecks) (ctx : X509StoreCtx) :
    PathOk checks ctx (startPath ctx) where
  first := ⟨_, rfl, rfl⟩
  linked := List.isChain_singleton _
  size := le_max_left _ _
  last := ⟨_, rfl, rfl⟩
  anchors := by
    intro c hc
    cases hc
  boundary := le_refl 1

theorem untrustedLoop_ok {room : Nat} {sktmp : List X509}
    (h : untrustedLoop checks ctx room sktmp st = .ok st') (hok : PathOk checks ctx st)
    (hall : st.lastUntrusted = st.chain.length) (hnum : st.num = st.chain.length)
    (hroom : room = chainRoom ctx st.num) :
    PathOk checks ctx st' ∧ st'.lastUntrusted = st'.chain.length ∧ st'.num = st'.chain.length := by
  fun_induction untrustedLoop checks ctx room sktmp st with
  | case1 sktmp st | case3 room sktmp st hself | case4 room sktmp st hself hfirst
  | case5 room sktmp st hself hfirst hnone =>
    cases h
    exact ⟨hok, hall, hnum⟩
  | case2 room sktmp st hself => cases h
  | case6 room sktmp st hself hfirst xtmp hfound ih =>
    obtain ⟨hlt, hnext⟩ := chainRoom_succ hroom
    refine ih h ?_ ?_ ?_ hnext
    · refine hok.push ⟨xtmp, .untrusted⟩ hself (findIssuer_spec hfound).2 ?_ (.inl ?_)
      · rwa [← hnum]
      · rw [hall]
    · simp [hall]
    · simp [hnum]

/-- What holds before a round: nothing of the chain is taken from the store yet, and `x` is still
    to be set. -/
structure RoundOk (checks : ChainChecks) (ctx : X509StoreCtx) (st : PathState) : Prop where
  path : ∃ x, PathOk checks ctx { st with x := x }
  allUntrusted : st.lastUntrusted = st.chain.length
  num_eq : st.num = st.chain.length

theorem examineLast_ok {j' : Nat} (h : examineLast checks ctx j st = .ok (j', st'))
    (hround : RoundOk checks ctx st) : PathOk checks ctx st' ∧ st'.num = st'.chain.length := by
  obtain ⟨⟨x, hok⟩, hall, hnum⟩ := hround
  unfold examineLast at h
  split at h
  · cases h
  next x origin hlast =>
  split at h
  · cases h
  · cases h
    exact ⟨{ hok with last := ⟨_, hlast, rfl⟩ }, hnum⟩
  split at h
  · next hone =>
    split at h
    · cases h
    next xtmp hxtmp =>
    split at h
    · cases h
    next hhash =>
    cases h
    obtain ⟨c, hfirst, hcert⟩ := hok.first
    obtain ⟨d, hd⟩ := length_eq_one_iff.mp hone
    rw [hd] at hlast hfirst
    cases hlast
    cases hfirst
    rw [not_not.mp hhash] at hcert
    refine ⟨⟨⟨⟨_, rfl, hcert⟩, isChain_singleton _, le_max_left _ _⟩, ⟨_, rfl, rfl⟩, ?_,
      Nat.zero_le _⟩, hnum.trans hone⟩
    intro c hc
    rw [mem_singleton.mp hc]
    exact ⟨rfl, (getIssuer_spec hxtmp).1⟩
  · next hone =>
    split at h
    · cases h
    next last hx =>
    cases h
    rw [dropLast_eq_take, hnum] at hx
    rw [dropLast_eq_take]
    have hlen : (st.chain.take (st.chain.length - 1)).length = st.chain.length - 1 := by simp
    refine ⟨hok.cut ?_ ?_, ?_⟩
    · rw [List.getLast?_eq_getElem?, hlen]
      exact hx
    · rw [hlen, hall]
    · rw [hlen, hnum]

theorem checkTrustLoop_trusted {certs : List ChainCert}
    (h : checkTrustLoop checks certs = .trusted) :
    ∃ c ∈ certs, checks.checkTrust c.cert = .trusted := by
  fun_induction checkTrustLoop checks certs with
  | case1 => cases h
  | case2 c certs huntrusted ih =>
    obtain ⟨d, hd, htrusted⟩ := ih h
    exact ⟨d, mem_cons_of_mem c hd, htrusted⟩
  | case3 c certs hdecided => exact ⟨c, mem_cons_self, h⟩

/-- Nothing changes unless the store has the leaf itself and nothing else of the chain. -/
theorem checkTrust_state (checks : ChainChecks) (ctx : X509StoreCtx) (st : PathState)
    (h : st.lastUntrusted < st.chain.length) : (checkTrust checks ctx st).2 = st := by
  unfold checkTrust
  split
  · rw [if_pos h]
    split
    · rfl
    · rfl
  · rfl

theorem checkTrust_untrusted (h : checkTrust checks ctx st = (.untrusted, st')) : st' = st := by
  unfold checkTrust at h
  repeat' split at h
  all_goals
    obtain ⟨hresult, hstate⟩ := Prod.mk.inj h
    first
    | exact hstate.symm
    | cases hresult

theorem checkTrust_trusted (hok : PathOk checks ctx st)
    (h : checkTrust checks ctx st = (.trusted, st')) : TrustedChain checks ctx st'.chain := by
  unfold checkTrust at h
  split at h
  · split at h
    · next hpartial =>
      split at h
      · next hlt =>
        cases h
        have hmem := getLast_mem (ne_nil_of_length_pos (l := st.chain.drop _)
          (by rw [length_drop]; exact Nat.sub_pos_of_lt hlt))
        exact ⟨hok.toChainOk, _, mem_of_mem_drop hmem, hok.anchors _ hmem, .inr hpartial⟩
      · split at h
        · cases h
        next c certs hchain =>
        split at h
        · next mx hmx =>
          cases h
          obtain ⟨hstore, hhash⟩ := lookupCertMatch_spec ctx hmx
          obtain ⟨first, hfirst, hcert⟩ := hok.first
          have hlinked := hok.linked
          have hsize := hok.size
          rw [hchain] at hfirst hlinked hsize
          cases hfirst
          refine ⟨⟨⟨_, rfl, hhash.trans hcert⟩, ?_, hsize⟩, _, mem_cons_self, ⟨rfl, hstore⟩,
            .inr hpartial⟩
          -- the copy of the leaf takes its place before the second certificate
          cases certs with
          | nil => exact isChain_singleton _
          | cons next certs =>
            rw [isChain_cons_cons] at hlinked ⊢
            exact ⟨hlinked.1.congr hhash, hlinked.2⟩
        · cases h
    · cases h
  · obtain ⟨hresult, hstate⟩ := Prod.mk.inj h
    subst hstate
    obtain ⟨c, hc, htrusted⟩ := checkTrustLoop_trusted hresult
    exact ⟨hok.toChainOk, c, mem_of_mem_drop hc, hok.anchors c hc, .inl htrusted⟩

theorem storeLoop_ok {room : Nat} (h : storeLoop checks ctx room st = .ok st')
    (hok : PathOk checks ctx st) (hnum : st.num = st.chain.length)
    (hroom : room = chainRoom ctx st.num) : PathOk checks ctx st' ∧
      (st'.num = st'.chain.length ∨ (checkTrust checks ctx st').1 ≠ .untrusted) := by
  fun_induction storeLoop checks ctx room st with
  | case1 st | case3 room st hself | case4 room st hself hnone =>
    cases h
    exact ⟨hok, .inl hnum⟩
  | case2 room st hself => cases h
  | case5 room st hself xtmp hxtmp st₁ htrust ih =>
    obtain ⟨hlt, hnext⟩ := chainRoom_succ hroom
    obtain ⟨hstore, hissued⟩ := getIssuer_spec hxtmp
    cases checkTrust_untrusted htrust
    refine ih h ?_ ?_ hnext
    · exact hok.push ⟨xtmp, .store⟩ hself hissued (by rwa [← hnum])
        (.inr ⟨rfl, rfl, hstore⟩)
    · simp [hnum]
  | case6 room st hself xtmp hxtmp trust st₁ hdecided htrust =>
    obtain ⟨hlt, -⟩ := chainRoom_succ hroom
    obtain ⟨hstore, hissued⟩ := getIssuer_spec hxtmp
    cases h
    -- the store's certificate is there, so that the check has not changed anything
    have hstate := checkTrust_state checks ctx
      { st with chain := st.chain ++ [⟨xtmp, .store⟩], x := xtmp }
      (by simpa using Nat.lt_succ_of_le hok.boundary)
    rw [htrust] at hstate
    cases hstate
    refine ⟨hok.push ⟨xtmp, .store⟩ hself hissued (by rwa [← hnum])
      (.inr ⟨rfl, rfl, hstore⟩), .inr ?_⟩
    rw [htrust]
    exact hdecided

theorem PathOk.cutTo (hok : PathOk checks ctx st) (hnum : st.num = st.chain.length) (hpos : 0 < j) :
    RoundOk checks ctx (st.cutTo j) := by
  have hlen := length_pos_iff.mpr hok.ne_nil
  have htake : (st.chain.take (st.chain.length - (st.num - j))).length = min st.num j := by
    rw [length_take]
    omega
  obtain ⟨c, hc⟩ : ∃ c, (st.chain.take (st.chain.length - (st.num - j))).getLast? = some c := by
    have hne : st.chain.take (st.chain.length - (st.num - j)) ≠ [] := by
      apply ne_nil_of_length_pos
      omega
    exact ⟨_, List.getLast?_eq_some_getLast hne⟩
  exact ⟨⟨c.cert, hok.cut hc rfl⟩, rfl, htake.symm⟩

theorem buildRound_trusted (hround : RoundOk checks ctx st)
    (h : buildRound checks ctx j st = .ok (.done .trusted st')) :
    TrustedChain checks ctx st'.chain := by
  obtain ⟨j₁, st₁, st₂, hexamine, hstore, hend⟩ := buildRound_ok h
  obtain ⟨hok₁, hnum₁⟩ := examineLast_ok hexamine hround
  obtain ⟨hok₂, -⟩ := storeLoop_ok hstore hok₁ hnum₁ rfl
  rcases hend with ⟨st₃, htrust, hdone⟩ | ⟨st₃, -, hdone | ⟨j', -, hretry⟩⟩
  · cases hdone
    exact checkTrust_trusted hok₂ htrust
  · cases hdone
  · cases hretry

theorem buildRound_retry {j' : Nat} (hround : RoundOk checks ctx st)
    (h : buildRound checks ctx j st = .ok (.retry j' st')) : RoundOk checks ctx st' := by
  obtain ⟨j₁, st₁, st₂, hexamine, hstore, hend⟩ := buildRound_ok h
  obtain ⟨hok₁, hnum₁⟩ := examineLast_ok hexamine hround
  obtain ⟨hok₂, hnum₂⟩ := storeLoop_ok hstore hok₁ hnum₁ rfl
  rcases hend with ⟨st₃, -, hdone⟩ | ⟨st₃, htrust, hdone | ⟨j₂, hfind, hretry⟩⟩
  · cases hdone
  · cases hdone
  · cases hretry
    cases checkTrust_untrusted htrust
    rcases hnum₂ with hnum₂ | hdecided
    · exact hok₂.cutTo hnum₂ (findAlternate_lt hfind).1
    · exact absurd (congrArg Prod.fst htrust) hdecided

theorem buildLoop_trusted (hround : RoundOk checks ctx st)
    (h : buildLoop checks ctx j st = .ok (.trusted, st')) : TrustedChain checks ctx st'.chain := by
  fun_induction buildLoop checks ctx j st with
  | case1 j st e herror => cases h
  | case2 j st trust st₁ hdone =>
    cases h
    exact buildRound_trusted hround hdone
  | case3 j st j' st₁ hretry hlt ih => exact ih (buildRound_retry hround hretry) h

theorem buildChain_of_round (huntrusted :
      untrustedLoop checks ctx (chainRoom ctx 1) ctx.untrusted (startPath ctx) = .ok st)
    (hround : buildRound checks ctx st.num st = .ok (.done .trusted st'))
    (hchain : st'.chain = chain) : buildChain checks ctx = .ok chain := by
  subst hchain
  have hloop : buildLoop checks ctx st.num st = .ok (.trusted, st') := by
    rw [buildLoop]
    split
    · next herror => rw [hround] at herror; cases herror
    · next hdone => rw [hround] at hdone; cases hdone; rfl
    · next hretry => rw [hround] at hretry; cases hretry
  unfold buildChain
  rw [huntrusted]
  change (buildLoop checks ctx st.num st).bind _ = _
  rw [hloop]
  rfl

theorem buildChain_ok (h : buildChain checks ctx = .ok chain) : TrustedChain checks ctx chain := by
  obtain ⟨st, huntrusted, h⟩ := except_bind_ok h
  obtain ⟨⟨trust, st'⟩, hbuild, h⟩ := except_bind_ok h
  dsimp only at h
  split at h
  · cases h
  · next htrust =>
    cases h
    rw [not_not.mp htrust] at hbuild
    obtain ⟨hok, hall, hnum⟩ :=
      untrustedLoop_ok huntrusted (startPath_ok checks ctx) rfl rfl rfl
    exact buildLoop_trusted ⟨⟨st.x, hok⟩, hall, hnum⟩ hbuild

/-! ### The signatures of an accepted chain -/

theorem require_ok {ret : X509V} {u : Unit} (h : require ret = .ok u) : ret = .ok := by
  unfold require at h
  split at h
  · assumption
  · cases h

theorem checkSignature_ok {xi xs : X509} (hne : xs ≠ xi)
    (h : checkSignature checks ctx xi xs = .ok) : checks.verify xs xi = true := by
  unfold checkSignature at h
  rw [if_pos (.inl hne)] at h
  split at h
  · cases h
  · split at h
    · cases h
    · next hverify => simpa using hverify

theorem verifyLoop_ok {xi leaf : X509} {certs : List X509}
    (h : verifyLoop checks ctx xi certs = .ok leaf) :
    (xi :: certs).IsChain (fun xi xs => xs ≠ xi → checks.verify xs xi = true) := by
  fun_induction verifyLoop checks ctx xi certs with
  | case1 xi => exact isChain_singleton xi
  | case2 xi xs certs ih =>
    obtain ⟨_, hsig, h⟩ := except_bind_ok h
    obtain ⟨_, -, h⟩ := except_bind_ok h
    rw [isChain_cons_cons]
    exact ⟨fun hne => checkSignature_ok hne (require_ok hsig), ih h⟩

theorem verifyFromEnd_ok {certs : List X509} {leaf : X509}
    (h : verifyFromEnd checks ctx certs = .ok leaf) :
    certs.IsChain (fun xi xs => xs ≠ xi → checks.verify xs xi = true) := by
  unfold verifyFromEnd at h
  split at h
  · cases h
  split at h
  · exact (verifyLoop_ok h).tail
  split at h
  · obtain ⟨_, -, h⟩ := except_bind_ok h
    exact verifyLoop_ok h
  split at h
  · cases h
  · exact verifyLoop_ok h

/-- What the successful run of `X509_verify_cert` consists of, as far as the chain goes. -/
theorem x509VerifyCert_ok (h : x509VerifyCert checks ctx = .ok chain) :
    buildChain checks ctx = .ok chain ∧
      internalVerify checks ctx (chain.map ChainCert.cert) = .ok () := by
  unfold x509VerifyCert at h
  split at h
  · cases h
  obtain ⟨chain', hbuild, h⟩ := except_bind_ok h
  obtain ⟨_, -, h⟩ := except_bind_ok h
  obtain ⟨_, -, h⟩ := except_bind_ok h
  obtain ⟨_, -, h⟩ := except_bind_ok h
  obtain ⟨_, -, h⟩ := except_bind_ok h
  obtain ⟨_, hverify, h⟩ := except_bind_ok h
  obtain ⟨_, -, h⟩ := except_bind_ok h
  obtain ⟨_, -, h⟩ := except_bind_ok h
  cases h
  exact ⟨hbuild, hverify⟩

/-- Every signature of the chain has been verified: linked certificates are different objects. -/
theorem signatures_of_verify (hlinked : chain.IsChain (Link checks))
    (h : internalVerify checks ctx (chain.map ChainCert.cert) = .ok ()) :
    chain.IsChain (fun c next => checks.verify c.cert next.cert = true) := by
  obtain ⟨leaf, hend, -⟩ := except_bind_ok h
  have hverified := isChain_reverse.mp (verifyFromEnd_ok hend)
  rw [isChain_map, isChain_iff_getElem] at hverified
  rw [isChain_iff_getElem] at hlinked ⊢
  intro i hi
  exact hverified i hi (hlinked i hi).ne

theorem maxChain_le (depth : Int) : maxChain depth ≤ depth + 2 := by
  unfold maxChain
  split <;> omega

/-- **Soundness of chain building.**  Whenever the verification succeeds, through whatever retries,
    the chain starts with the certificate that was asked for, or a copy of it, and is not longer
    than the depth allows, but for the leaf itself.  Every signature has been verified with the key
    of the next certificate, and there is a certificate of the trust store that is trusted. -/
theorem verify_cert_sound (checks : ChainChecks) (ctx : X509StoreCtx) (chain : List ChainCert)
    (h : x509VerifyCert checks ctx = .ok chain) :
    (∃ c, chain.head? = some c ∧ checks.certHash c.cert = checks.certHash ctx.cert) ∧
      (chain.length : Int) ≤ max 1 (ctx.param.depth + 2) ∧
      chain.IsChain (fun c next => checks.verify c.cert next.cert = true) ∧
      ∃ c ∈ chain, Anchor checks ctx c ∧
        (checks.checkTrust c.cert = .trusted ∨ ctx.param.flags.partialChain = true) := by
  obtain ⟨hbuild, hverify⟩ := x509VerifyCert_ok h
  obtain ⟨hok, hanchor⟩ := buildChain_ok hbuild
  have hsize := hok.size
  have hmax := maxChain_le ctx.param.depth
  exact ⟨hok.first, by omega, signatures_of_verify hok.linked hverify, hanchor⟩

/-- The issuer check and the self-signed flag of the source, for a hash without collisions. -/
def ChainChecks.withX509 (checks : ChainChecks) (hash : X509Info → Bytes)
    (hinj : Function.Injective hash) : ChainChecks :=
  { checks with
    issued := fun x issuer => x509CheckIssued issuer x = .ok
    selfSigned := certSelfSigned
    certHash := fun x => hash x.info
    not_issued_self := by
      intro x hself
      unfold certSelfSigned at hself
      split at hself
      · next hvalid =>
        have hnot : ¬x509CheckIssued x x = .ok := by
          rw [x509CheckIssued_self hvalid, Option.some.inj hself]
          exact Bool.false_ne_true
        exact decide_eq_false hnot
      · cases hself
    selfSigned_congr := by
      intro x y hhash
      cases x
      cases y
      cases hinj hhash
      rfl
    issued_congr := by
      intro x y issuer hhash
      cases x
      cases y
      cases hinj hhash
      rfl }

def oneRootChecks (root : X509) : ChainChecks :=
  { issued := fun _ issuer => issuer = root
    selfSigned := fun x => some (decide (x = root))
    certHash := fun x => if x = root then [0] else [1]
    not_issued_self := by
      intro x hx
      exact Option.some.inj hx
    selfSigned_congr := by
      intro x y hhash
      by_cases hx : x = root <;> by_cases hy : y = root <;> simp [hx, hy] at hhash ⊢
    issued_congr := fun _ _ _ _ => rfl
    certTime := fun _ => .ok
    checkTrust := fun x => if x = root then .trusted else .untrusted
    hasPubkey := fun _ => true
    verify := fun _ issuer => issuer = root
    getBySubject := fun _ => some root
    objsBySubject := fun _ => [root]
    get1Certs := fun _ => some [root]
    chainExtensions := fun _ => .ok
    checkId := fun _ => .ok
    revocation := fun _ => .ok
    blockedSpki := fun _ => .ok
    nameConstraints := fun _ => .ok
    policy := fun _ => .ok }

def depthCtx (cert : X509) (depth : Int) : X509StoreCtx :=
  { cert := cert
    untrusted := []
    trustedStack := none
    param := { flags := {}, purpose := 0, trust := 0, depth := depth } }

theorem oneRootChecks_verify {root : X509} (hflags : ctx.param.flags = {})
    (hbuild : buildChain (oneRootChecks root) ctx = .ok chain)
    (hverify : internalVerify (oneRootChecks root) ctx (chain.map ChainCert.cert) = .ok ()) :
    x509VerifyCert (oneRootChecks root) ctx = .ok chain := by
  unfold x509VerifyCert
  rw [hflags, hbuild]
  change (internalVerify (oneRootChecks root) ctx (chain.map ChainCert.cert)).bind _ = _
  rw [hverify]
  rfl

/-- A leaf below the root is verified. -/
theorem verify_cert_sound_sample :
    ∃ c ∈ [(⟨sampleCa false none, .leaf⟩ : ChainCert), ⟨sampleCa true none, .store⟩],
      Anchor (oneRootChecks (sampleCa true none)) (depthCtx (sampleCa false none) 0) c := by
  obtain ⟨-, -, -, c, hc, hanchor, -⟩ := verify_cert_sound (oneRootChecks (sampleCa true none))
    (depthCtx (sampleCa false none) 0)
    [⟨sampleCa false none, .leaf⟩, ⟨sampleCa true none, .store⟩]
    (oneRootChecks_verify rfl (buildChain_of_round rfl rfl rfl) rfl)
  exact ⟨c, hc, hanchor⟩

/-- **A chain of one.**  However negative the depth is, a root of the store is still verified. -/
theorem verify_cert_past_depth :
    x509VerifyCert (oneRootChecks (sampleCa true none)) (depthCtx (sampleCa true none) (-2)) =
        .ok [⟨sampleCa true none, .store⟩] ∧
      ¬(([⟨sampleCa true none, .store⟩] : List ChainCert).length : Int) ≤
        (depthCtx (sampleCa true none) (-2)).param.depth + 2 := by
  refine ⟨?_, by decide⟩
  exact oneRootChecks_verify rfl (buildChain_of_round rfl rfl rfl) rfl

end AwsLc
