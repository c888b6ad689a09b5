import AwsLc.ChainExtensions
import AwsLc.ConstrainedNames

/-!
# Common names under name constraints

A certificate without a dNSName may authenticate a host by a common name.  The constraints of its
issuers reach a common name only if `cn2dnsid` takes it for a DNS name, which is a syntax check of
its own (`DnsSyntax`).  `check_name_constraints` applies both checks along a chain.
-/

namespace AwsLc

open List CheckType

/-! ### The syntax of `cn2dnsid` -/

/-- A character that makes `cn2dnsid` refuse a name that looks like a DNS name. -/
def nonDnsChar (c : UInt8) : Bool := c ≥ 0x80 ∨ c ≤ 0x20 ∨ c = 0x7f

/-- The rest of a name that `cn2dnsid` reads to its end: a hyphen or dot is neither first nor
last, and next to a dot there is no hyphen and after it no dot. -/
def Plausible : (before : Option UInt8) → Bytes → Prop
  | _, [] => True
  | before, c :: rest =>
    (opensslIsalnum c = true ∨ c = '_'.toUInt8 ∨ nonDnsChar c = true ∨
      (before.isSome = true ∧ rest ≠ [] ∧ (c = '-'.toUInt8 ∨
        (c = '.'.toUInt8 ∧ before ≠ some '-'.toUInt8 ∧ rest.head? ≠ some '.'.toUInt8 ∧
          rest.head? ≠ some '-'.toUInt8)))) ∧
      Plausible (some c) rest

/-- The names that `cn2dnsid` refuses or takes for DNS names, by their syntax. -/
def DnsSyntax (value : Bytes) : Prop :=
  Plausible none (checkedPart value) ∧ '.'.toUInt8 ∈ checkedPart value

theorem dot_no_letter : opensslIsalnum dot = false ∧ dot ≠ '_'.toUInt8 ∧
    dot ≠ '-'.toUInt8 := by decide

theorem dnsNameLoop_ok_iff {before : Option UInt8} {s : Bytes} (h : Plausible before s)
    (isDnsName hasNonDnsChar : Bool) : (dnsNameLoop before s isDnsName hasNonDnsChar).1 = true ↔
      isDnsName = true ∨ dot ∈ s := by
  induction s generalizing before isDnsName hasNonDnsChar with
  | nil => simp [dnsNameLoop]
  | cons c rest ih =>
    obtain ⟨hc, hrest⟩ := h
    obtain ⟨halnum, hunderscore, hhyphen⟩ := dot_no_letter
    unfold dnsNameLoop
    by_cases hletter : opensslIsalnum c = true ∨ c = '_'.toUInt8
    · have hne : dot ≠ c := by
        rintro rfl
        rcases hletter with hletter | hletter
        · rw [halnum] at hletter
          cases hletter
        · exact hunderscore hletter
      rw [if_pos hletter, ih hrest, mem_cons, or_iff_right hne]
    rw [if_neg hletter]
    by_cases hother : c ≥ 0x80 ∨ c ≤ 0x20 ∨ c = 0x7f
    · have hne : dot ≠ c := by
        rintro rfl
        exact absurd hother (by decide)
      rw [if_pos hother, ih hrest, mem_cons, or_iff_right hne]
    rw [if_neg hother]
    have hinner : before.isSome = true ∧ rest ≠ [] ∧ (c = '-'.toUInt8 ∨
        (c = dot ∧ before ≠ some '-'.toUInt8 ∧ rest.head? ≠ some dot ∧
          rest.head? ≠ some '-'.toUInt8)) := by
      rcases hc with hc | hc | hc | hc
      · exact absurd (Or.inl hc) hletter
      · exact absurd (Or.inr hc) hletter
      · exact absurd (of_decide_eq_true hc) hother
      · exact hc
    obtain ⟨hbefore, hne, hchar⟩ := hinner
    obtain ⟨previous, rfl⟩ := Option.isSome_iff_exists.mp hbefore
    cases rest with
    | nil => exact absurd rfl hne
    | cons next rest =>
      dsimp only
      by_cases hc : c = '-'.toUInt8
      · have hnotDot : dot ≠ c := by
          rw [hc]
          exact hhyphen
        have hmem : dot ∈ c :: next :: rest ↔ dot ∈ next :: rest := by
          rw [mem_cons, or_iff_right hnotDot]
        rw [if_pos hc, ih hrest, hmem]
      · obtain ⟨hdot, hprevious, hnext, hnext'⟩ := hchar.resolve_left hc
        rw [if_neg hc, if_pos, ih hrest, hdot]
        · simp
        · exact ⟨hdot, fun heq => hnext (congrArg some heq),
            fun heq => hprevious (congrArg some heq), fun heq => hnext' (congrArg some heq)⟩

theorem Labels.shape {start hyphen : Bool} {s : Bytes} (h : Labels start hyphen s)
    {before : Option UInt8} (hstart : start = false → before.isSome = true)
    (hhyphen : hyphen = false → before ≠ some '-'.toUInt8) : Plausible before s := by
  induction s generalizing start hyphen before with
  | nil => trivial
  | cons c rest ih =>
    rcases h with ⟨halnum, hrest⟩ | ⟨hdot, hs, hh, hrest⟩ | ⟨hc, hs, hrest⟩
    · refine ⟨Or.inl halnum, ih hrest (fun _ => rfl) fun _ heq => ?_⟩
      rw [Option.some.inj heq] at halnum
      exact absurd halnum (by decide)
    · refine ⟨Or.inr (Or.inr (Or.inr ⟨hstart hs, ?_⟩)), ih hrest nofun fun _ heq => ?_⟩
      · -- a label follows the dot
        cases rest with
        | nil => exact absurd hrest.1 (by decide)
        | cons next rest =>
          refine ⟨cons_ne_nil _ _, Or.inr ⟨hdot, hhyphen hh, ?_⟩⟩
          rcases hrest with ⟨halnum, -⟩ | ⟨-, hfalse, -⟩ | ⟨-, hfalse, -⟩
          · constructor
            · intro heq
              rw [Option.some.inj heq] at halnum
              exact absurd halnum (by decide)
            · intro heq
              rw [Option.some.inj heq] at halnum
              exact absurd halnum (by decide)
          · cases hfalse
          · cases hfalse
      · rw [hdot] at heq
        exact absurd heq (by decide)
    · refine ⟨Or.inr (Or.inr (Or.inr ⟨hstart hs, ?_, Or.inl hc⟩)), ih hrest (fun _ => rfl) nofun⟩
      rintro rfl
      exact absurd hrest.2 (by decide)

variable {value : Bytes}

theorem dnsSyntax_of_validStar {index : Nat} (h : validStar value = some index) :
    DnsSyntax value := by
  obtain ⟨-, rest, rfl, hlabels, hdot⟩ := validStar_some h
  have hpart : checkedPart (star :: dot :: rest) = rest := by
    have hlength : (star :: dot :: rest).length > 2 := by
      have := length_pos_of_mem hdot
      rw [length_cons, length_cons]
      omega
    exact if_pos ⟨hlength, rfl⟩
  unfold DnsSyntax
  rw [hpart]
  exact ⟨Labels.shape hlabels nofun fun _ => nofun, hdot⟩

theorem removeTrailingNuls_eq (h : 0 ∉ value) : removeTrailingNuls value = value := by
  unfold removeTrailingNuls
  rw [rdropWhile_eq_self_iff]
  intro hne hlast
  rw [decide_eq_true_iff] at hlast
  rw [← hlast] at h
  exact h (getLast_mem hne)

/-- A name in this syntax is refused, or taken for a DNS name as it is. -/
theorem cn2dnsid_of_syntax (hzero : 0 ∉ value) (h : DnsSyntax value) :
    (∃ ret, cn2dnsid value = .error ret ∧ ret ≠ .ok) ∨ cn2dnsid value = .ok value := by
  have hloop := (dnsNameLoop_ok_iff h.1 false false).mpr (Or.inr h.2)
  unfold cn2dnsid
  rw [removeTrailingNuls_eq hzero]
  dsimp only
  rw [if_neg hzero, hloop]
  cases (dnsNameLoop none (checkedPart value) false false).2 with
  | true => exact Or.inl ⟨_, rfl, by decide⟩
  | false => exact Or.inr rfl

theorem cn2dnsid_error {ret : X509V} (h : cn2dnsid value = .error ret) : ret ≠ .ok := by
  unfold cn2dnsid at h
  dsimp only at h
  split at h
  · cases h
    decide
  split at h
  · cases h
    decide
  split at h
  · cases h
  · cases h

/-- If the check passes, every name that was taken for a DNS name was compared and passed. -/
theorem checkCnLoop_ok {toUtf8 : Asn1String → Option Bytes} {nc : NameConstraints}
    {cns : List Asn1String} (h : (checkCnLoop toUtf8 nc cns).1 = .ok) {cn : Asn1String}
    (hcn : cn ∈ cns) (hvalue : toUtf8 cn = some value) :
    ∃ idval, cn2dnsid value = .ok idval ∧ (idval ≠ [] →
      idval ∈ (checkCnLoop toUtf8 nc cns).2 ∧ ncMatch (.dns ⟨.ia5String, idval⟩) nc = .ok) := by
  induction cns with
  | nil => cases hcn
  | cons first cns ih =>
    unfold checkCnLoop at h ⊢
    cases hfirst : toUtf8 first with
    | none =>
      rw [hfirst] at h
      cases h
    | some firstValue =>
      rw [hfirst] at h
      dsimp only at h ⊢
      have hhead : cn = first → value = firstValue := by
        rintro rfl
        rw [hvalue] at hfirst
        exact Option.some.inj hfirst
      rcases hid : cn2dnsid firstValue with ret | idval
      · rw [hid] at h
        exact absurd h (cn2dnsid_error hid)
      rw [hid] at h
      cases idval with
      | nil =>
        rcases mem_cons.mp hcn with heq | hrest
        · rw [hhead heq]
          exact ⟨[], hid, fun hne => absurd rfl hne⟩
        · exact ih h hrest
      | cons byte idval =>
        dsimp only at h ⊢
        by_cases hmatch : ncMatch (.dns ⟨.ia5String, byte :: idval⟩) nc = .ok
        · rw [if_neg (not_not.mpr hmatch)] at h ⊢
          rcases mem_cons.mp hcn with heq | hrest
          · rw [hhead heq]
            exact ⟨_, hid, fun _ => ⟨mem_cons_self, hmatch⟩⟩
          · obtain ⟨id, hid', hpass⟩ := ih h hrest
            exact ⟨id, hid', fun hne => ⟨mem_cons_of_mem _ (hpass hne).1, (hpass hne).2⟩⟩
        · rw [if_pos hmatch] at h
          exact absurd h hmatch

variable {flags : CheckFlags}

theorem zero_notMem_of_skipPrefixLoop {len : Nat} {p : Bytes} (h : 0 ∉ skipPrefixLoop flags len p) :
    0 ∉ p := by
  induction p with
  | nil => exact not_mem_nil
  | cons c p ih =>
    unfold skipPrefixLoop at h
    split at h
    · next hskip =>
      split at h
      · exact h
      · rw [mem_cons, not_or]
        exact ⟨hskip.2.symm, ih h⟩
    · exact h

theorem skipPrefixLoop_suffix (flags : CheckFlags) (len : Nat) (p : Bytes) :
    skipPrefixLoop flags len p <:+ p := by
  induction p with
  | nil => exact suffix_refl _
  | cons c p ih =>
    unfold skipPrefixLoop
    split
    · split
      · exact suffix_refl _
      · exact ih.trans (suffix_cons c p)
    · exact suffix_refl _

theorem skipPrefix_spec (flags : CheckFlags) (p : Bytes) (len : Nat) :
    skipPrefix flags p len <:+ p ∧ (0 ∉ skipPrefix flags p len → 0 ∉ p) := by
  unfold skipPrefix
  split
  · exact ⟨suffix_refl p, id⟩
  dsimp only
  split
  · exact ⟨skipPrefixLoop_suffix _ _ _, zero_notMem_of_skipPrefixLoop⟩
  · exact ⟨suffix_refl p, id⟩

/-- A literal match: the host is the name or the end of it, up to case. -/
theorem equalNocase_suffix {p s : Bytes} (h : equalNocase flags p s = true) :
    0 ∉ p ∧ ∃ tail, tail <:+ p ∧ lower tail = lower s := by
  unfold equalNocase at h
  dsimp only at h
  split at h
  · cases h
  next hlength =>
  obtain ⟨hsuffix, hskipped⟩ := skipPrefix_spec flags p s.length
  obtain ⟨hzero, hsame⟩ := (equalNocaseLoop_iff (not_not.mp hlength)).mp h
  exact ⟨hskipped hzero, _, hsuffix, hsame⟩

/-- A common name that accepts a host has no zero bytes. -/
theorem accepted_no_zero {h : Bytes}
    (haccept : dns.equal flags (dns.flagsFor flags h) value h = true) : 0 ∉ value := by
  rcases equal_dns haccept with hwildcard | hnocase
  · unfold equalWildcard at hwildcard
    dsimp only at hwildcard
    split at hwildcard
    · exact (equalNocase_suffix hwildcard).1
    · next index hstar =>
      split at hstar
      · cases hstar
      obtain ⟨-, rest, heq, hlabels, -⟩ := validStar_some hstar
      rw [heq]
      simp only [mem_cons, not_or]
      exact ⟨by decide, by decide, labels_no_zero hlabels⟩
  · exact (equalNocase_suffix hnocase).1

variable (toUtf8 : Asn1String → Option Bytes)

/-- The common name accepts the host, and is a wildcard name or has the syntax of `cn2dnsid`. -/
structure AcceptsAs (flags : CheckFlags) (x : X509) (value h : Bytes) : Prop where
  named : ∃ cn ∈ subjectOf .commonName x, toUtf8 cn = some value
  accepts : dns.equal flags (dns.flagsFor flags h) value h = true
  syntactic : validStar value = none → DnsSyntax value

theorem AcceptsAs.compared {toUtf8 : Asn1String → Option Bytes} {x : X509} {nc : NameConstraints}
    {h : Bytes} (hname : AcceptsAs toUtf8 flags x value h)
    (hok : (nameConstraintsCheckCn toUtf8 x nc).1 = .ok) :
    value ∈ (nameConstraintsCheckCn toUtf8 x nc).2 ∧
      ncMatch (.dns ⟨.ia5String, value⟩) nc = .ok := by
  obtain ⟨cn, hcn, hvalue⟩ := hname.named
  have hdns : DnsSyntax value := by
    cases hstar : validStar value with
    | none => exact hname.syntactic hstar
    | some index => exact dnsSyntax_of_validStar hstar
  have hne : value ≠ [] := by
    rintro rfl
    exact absurd hdns.2 not_mem_nil
  obtain ⟨idval, hid, hcompared⟩ := checkCnLoop_ok hok hcn hvalue
  rcases cn2dnsid_of_syntax (accepted_no_zero hname.accepts) hdns with ⟨ret, herror, -⟩ | hself
  · rw [herror] at hid
    cases hid
  · rw [hself] at hid
    cases hid
    exact hcompared hne

/-- **Common names do not get past the constraints.** Where a certificate without a dNSName
    authenticates a host, a common name accepts it. For every common name that accepts the host
    and is a wildcard name or has the syntax that `cn2dnsid` asks for, `NAME_CONSTRAINTS_check_CN`
    returns an error or has compared that name with the subtrees. If it returns `X509_V_OK`, a
    host without a leading dot is inside the permitted and outside the excluded subtrees, whose
    bases have no stars. -/
theorem common_names_constrained (x : X509) (h : Bytes)
    (flags : CheckFlags) (nc : NameConstraints) (hsan : altNamesOf .dns x = []) :
    (x509CheckHost toUtf8 x h h.length flags = 1 →
      ∃ cn ∈ subjectOf .commonName x, ∃ value, toUtf8 cn = some value ∧
        dns.equal flags (dns.flagsFor flags h) value h = true) ∧
    ∀ value, AcceptsAs toUtf8 flags x value h →
      ((nameConstraintsCheckCn toUtf8 x nc).1 ≠ .ok ∨
        value ∈ (nameConstraintsCheckCn toUtf8 x nc).2) ∧
      ((nameConstraintsCheckCn toUtf8 x nc).1 = .ok → h.head? ≠ some '.'.toUInt8 → nc.Starless →
        ncMatch (.dns ⟨.ia5String, h⟩) nc = .ok) := by
  refine ⟨fun hcheck => ?_, fun value hname => ⟨?_, fun hok hhead hnc => ?_⟩⟩
  · rcases doX509Check_dns (x509CheckHost_eq_one hcheck) with ⟨d, hmem, -⟩ |
      ⟨-, -, cn, hcn, value, hvalue, haccept⟩
    · rw [hsan] at hmem
      cases hmem
    · exact ⟨cn, hcn, value, hvalue, haccept⟩
  · by_cases hok : (nameConstraintsCheckCn toUtf8 x nc).1 = .ok
    · exact Or.inr (hname.compared hok).1
    · exact Or.inl hok
  · exact ncMatch_of_accepted (flagsFor_dot hhead flags) hnc (equal_dns hname.accepts)
      (hname.compared hok).2

def commonNameCert (cns : List (List Char)) : X509 :=
  { address := 0
    info :=
      { version1 := false
        serialNumber := 1
        issuer := ⟨[], [0]⟩
        subject := ⟨cns.map fun cn => (.commonName, ⟨.other 12, cn.map Char.toUInt8⟩), [1]⟩
        publicKey := .notEc
        basicConstraints := .absent
        keyUsage := .absent
        extKeyUsage := .absent
        extKeyUsageCritical := false
        netscapeCertType := .absent
        subjectKeyIdentifier := .absent
        authorityKeyIdentifier := .absent
        subjectAltName := .absent
        nameConstraints := .absent
        crlDistributionPoints := .absent
        certificatePolicies := .absent
        policyMappings := .absent
        policyConstraints := .absent
        inhibitAnyPolicy := .absent
        unsupportedCritical := [] }
    aux := none }

def dnsSubtree (base : List Char) : GeneralSubtree :=
  ⟨.dns ⟨.ia5String, base.map Char.toUInt8⟩, false, false⟩

theorem dnsSyntax_abc : DnsSyntax (['a', '.', 'b', '.', 'c'].map Char.toUInt8) := by
  refine ⟨?_, by decide⟩
  refine ⟨Or.inl (by decide), Or.inr (Or.inr (Or.inr ?_)), Or.inl (by decide),
    Or.inr (Or.inr (Or.inr ?_)), Or.inl (by decide), trivial⟩
  · exact ⟨rfl, by decide, Or.inr (by decide)⟩
  · exact ⟨rfl, by decide, Or.inr (by decide)⟩

/-- The common names `a.b.c` and `f@b.c`, the second of which is not compared, under a permitted
    subtree `b.c`. -/
theorem common_names_constrained_sample :
    let names := [['a', '.', 'b', '.', 'c'], ['f', '@', 'b', '.', 'c']]
    nameConstraintsCheckCn (fun a => some a.data) (commonNameCert names)
        ⟨[dnsSubtree ['b', '.', 'c']], []⟩ = (.ok, [['a', '.', 'b', '.', 'c'].map Char.toUInt8]) ∧
      ncMatch (.dns ⟨.ia5String, ['a', '.', 'b', '.', 'c'].map Char.toUInt8⟩)
        ⟨[dnsSubtree ['b', '.', 'c']], []⟩ = .ok := by
  refine ⟨by decide, ?_⟩
  refine ((common_names_constrained (fun a => some a.data)
    (commonNameCert [['a', '.', 'b', '.', 'c'], ['f', '@', 'b', '.', 'c']])
    (['a', '.', 'b', '.', 'c'].map Char.toUInt8) CheckFlags.none
    ⟨[dnsSubtree ['b', '.', 'c']], []⟩ (by decide)).2 (['a', '.', 'b', '.', 'c'].map Char.toUInt8)
    ⟨⟨_, mem_cons_self, rfl⟩, by decide, fun _ => dnsSyntax_abc⟩).2 (by decide) (by decide) ?_
  intro base hbase
  rw [mem_singleton.mp hbase]
  decide

/-- **Names past the constraints.** The host `.b.c` stands for the names below `b.c`: the common
    name `a.b.c` accepts it and is permitted, the host is not. The common name `a.b.` accepts the
    host `a.b.` and is not compared with the excluded subtree `a.b`, which the host is in. -/
theorem common_names_past_constraints :
    (x509CheckHost (fun a => some a.data) (commonNameCert [['a', '.', 'b', '.', 'c']])
        (['.', 'b', '.', 'c'].map Char.toUInt8) 4 CheckFlags.none = 1 ∧
      nameConstraintsCheckCn (fun a => some a.data) (commonNameCert [['a', '.', 'b', '.', 'c']])
        ⟨[dnsSubtree ['a', '.', 'b', '.', 'c']], []⟩ =
          (.ok, [['a', '.', 'b', '.', 'c'].map Char.toUInt8]) ∧
      ncMatch (.dns ⟨.ia5String, ['.', 'b', '.', 'c'].map Char.toUInt8⟩)
        ⟨[dnsSubtree ['a', '.', 'b', '.', 'c']], []⟩ = .permittedViolation) ∧
    (x509CheckHost (fun a => some a.data) (commonNameCert [['a', '.', 'b', '.']])
        (['a', '.', 'b', '.'].map Char.toUInt8) 4 CheckFlags.none = 1 ∧
      nameConstraintsCheckCn (fun a => some a.data) (commonNameCert [['a', '.', 'b', '.']])
        ⟨[], [dnsSubtree ['a', '.', 'b']]⟩ = (.ok, []) ∧
      ncMatch (.dns ⟨.ia5String, ['a', '.', 'b', '.'].map Char.toUInt8⟩)
        ⟨[], [dnsSubtree ['a', '.', 'b']]⟩ = .excludedViolation) := by
  decide

/-! ### Along a chain -/

def checkAgainst (hostflags : CheckFlags) (x : X509) (nc : NameConstraints) : X509V :=
  let rv := nameConstraintsCheck x nc
  if rv = .ok ∧ hostflags.neverCheckSubject = false ∧
      (hostflags.alwaysCheckSubject = true ∨ altNamesOf .dns x = []) then
    (nameConstraintsCheckCn toUtf8 x nc).1
  else rv

/-- The inner loop of `check_name_constraints`, over the issuers of `i` from the last on. -/
def checkIssuers (ctx : VerifyCtx) (toUtf8 : Asn1String → Option Bytes) (hostflags : CheckFlags)
    (i : Nat) (x : X509) : List X509 → Except (X509V × Nat) Unit
  | [] => .ok ()
  | issuer :: issuers =>
    match issuer.info.nameConstraints.value? with
    | none => checkIssuers ctx toUtf8 hostflags i x issuers
    | some nc =>
      let rv := checkAgainst toUtf8 hostflags x nc
      if rv = .ok then checkIssuers ctx toUtf8 hostflags i x issuers
      else if rv = .outOfMem then .error (rv, i)
      else do
        callVerifyCb ctx rv i
        checkIssuers ctx toUtf8 hostflags i x issuers

/-- `check_name_constraints` on the part of a chain that starts at `i`.  Self-issued certificates
other than the leaf are not checked. -/
def checkNameConstraints (ctx : VerifyCtx) (toUtf8 : Asn1String → Option Bytes)
    (hostflags : CheckFlags) (i : Nat) : List X509 → Except (X509V × Nat) Unit
  | [] => .ok ()
  | x :: issuers => do
    checkNameConstraints ctx toUtf8 hostflags (i + 1) issuers
    if i ≠ 0 ∧ x.selfIssued then .ok ()
    else checkIssuers ctx toUtf8 hostflags i x issuers.reverse

section

variable {toUtf8 : Asn1String → Option Bytes} {hostflags : CheckFlags} {x : X509}
  {issuers : List X509} {nc : NameConstraints}

/-- Without a callback the first failure ends the pass. -/
theorem checkIssuers_ok {ctx : VerifyCtx} (hcb : ctx.verifyCb = nullCallback) {i : Nat}
    (h : checkIssuers ctx toUtf8 hostflags i x issuers = .ok ()) :
    ∀ issuer ∈ issuers, ∀ nc, issuer.info.nameConstraints.value? = some nc →
      checkAgainst toUtf8 hostflags x nc = .ok := by
  induction issuers with
  | nil => exact forall_mem_nil _
  | cons first issuers ih =>
    rw [checkIssuers] at h
    rw [forall_mem_cons]
    split at h
    · rename_i hnone
      exact ⟨fun nc hnc => (nomatch hnone.symm.trans hnc), ih h⟩
    · rename_i firstNc hfirst
      by_cases hok : checkAgainst toUtf8 hostflags x firstNc = .ok
      · rw [if_pos hok] at h
        exact ⟨fun nc hnc => Option.some.inj (hfirst.symm.trans hnc) ▸ hok, ih h⟩
      · rw [if_neg hok, callVerifyCb_null hcb] at h
        split at h <;> cases h

theorem ncMatch_of_ncMatchAll {gens : List GeneralName} (h : ncMatchAll nc gens = .ok) :
    ∀ gen ∈ gens, ncMatch gen nc = .ok := by
  induction gens with
  | nil => exact forall_mem_nil _
  | cons gen gens ih =>
    rw [ncMatchAll] at h
    rw [forall_mem_cons]
    split at h
    · rename_i hne
      exact absurd h hne
    · rename_i hok
      exact ⟨not_not.mp hok, ih h⟩

theorem nameConstraintsCheck_dns (h : nameConstraintsCheck x nc = .ok) {d : Asn1String}
    (hd : d ∈ altNamesOf .dns x) : ncMatch (.dns d) nc = .ok := by
  obtain ⟨gen, hgen, hstring⟩ := mem_filterMap.mp hd
  unfold nameConstraintsCheck at h
  dsimp only at h
  split at h
  · cases h
  split at h
  · rename_i hne
    exact absurd h hne
  · have hmatch := ncMatch_of_ncMatchAll h gen hgen
    cases gen with
    | dns dNSName =>
      cases hstring
      exact hmatch
    | _ => cases hstring

/-- **Hosts along a chain.** Where `check_name_constraints` passes without a callback and the leaf
    authenticates a host without a leading dot, by a dNSName or by common names that are wildcard
    names or have the syntax that `cn2dnsid` asks for, the host is inside the permitted and outside
    the excluded subtrees of every issuer of the chain whose bases have no stars. -/
theorem host_within_chain (ctx : VerifyCtx) (hcb : ctx.verifyCb = nullCallback)
    (h : checkNameConstraints ctx toUtf8 hostflags 0 (x :: issuers) = .ok ()) {host : Bytes}
    (hnames : ∀ cn ∈ subjectOf .commonName x, ∀ value, toUtf8 cn = some value →
      dns.equal hostflags (dns.flagsFor hostflags host) value host = true →
      validStar value = none → DnsSyntax value)
    (hhead : host.head? ≠ some '.'.toUInt8)
    (hcheck : x509CheckHost toUtf8 x host host.length hostflags = 1) {issuer : X509}
    (hissuer : issuer ∈ issuers) (hnc : issuer.info.nameConstraints.value? = some nc)
    (hstarless : nc.Starless) : ncMatch (.dns ⟨.ia5String, host⟩) nc = .ok := by
  obtain ⟨-, -, hleaf⟩ := except_bind_ok h
  rw [if_neg (fun hnot => hnot.1 rfl)] at hleaf
  have hagainst := checkIssuers_ok hcb hleaf issuer (mem_reverse.mpr hissuer) nc hnc
  have hchecked : nameConstraintsCheck x nc = .ok := by
    by_contra hne
    rw [checkAgainst, if_neg (fun hboth => hne hboth.1)] at hagainst
    exact hne hagainst
  have hflags := flagsFor_dot hhead hostflags
  rcases doX509Check_dns (x509CheckHost_eq_one hcheck) with ⟨d, hd, -, haccept⟩ |
    ⟨hlooked, hnever, cn, hcn, value, hvalue, haccept⟩
  · exact ncMatch_of_accepted hflags hstarless (equal_dns haccept)
      (nameConstraintsCheck_dns hchecked hd)
  · rw [checkAgainst, if_pos ⟨hchecked, hnever, hlooked.symm⟩] at hagainst
    exact ncMatch_of_accepted hflags hstarless (equal_dns haccept)
      (AcceptsAs.compared ⟨⟨cn, hcn, hvalue⟩, haccept, hnames cn hcn value hvalue haccept⟩
        hagainst).2

end

/-- The common name `*.b.c` accepts `a.b.c`, under an issuer that permits `b.c`. -/
theorem host_within_chain_sample :
    let leaf := commonNameCert [['*', '.', 'b', '.', 'c']]
    let nc : NameConstraints := ⟨[dnsSubtree ['b', '.', 'c']], []⟩
    let issuer := { leaf with info := { leaf.info with nameConstraints := .present nc } }
    let host := ['a', '.', 'b', '.', 'c'].map Char.toUInt8
    checkNameConstraints sampleCtx (fun a => some a.data) CheckFlags.none 0 [leaf, issuer] =
        .ok () ∧
      x509CheckHost (fun a => some a.data) leaf host host.length CheckFlags.none = 1 ∧
      ncMatch (.dns ⟨.ia5String, host⟩) nc = .ok := by
  intro leaf nc issuer host
  refine ⟨by decide, by decide, ?_⟩
  refine @host_within_chain (fun a => some a.data) CheckFlags.none leaf [issuer] nc sampleCtx rfl
    (by decide) host ?_ (by decide) (by decide) issuer mem_cons_self rfl ?_
  · intro cn hcn value hvalue _ hstar
    rw [mem_singleton.mp hcn] at hvalue
    cases hvalue
    exact absurd hstar (by decide)
  · intro base hbase
    rw [mem_singleton.mp hbase]
    decide

end AwsLc
