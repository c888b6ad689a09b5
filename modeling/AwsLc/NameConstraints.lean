import AwsLc.HostCheck
import Mathlib.Data.List.DropRight

/-!
# Name constraints (`crypto/x509/v3_ncons.c`)

The comparison of the names of a certificate with the permitted and the excluded subtrees of an
issuer, for every type of name, and the check of the common names that look like host names.
-/

namespace AwsLc

/-! ### Strings -/

variable (cbs : Bytes)

def startsWith (c : UInt8) : Bool := cbs.head? == some c

def endsWithByte (c : UInt8) : Bool := cbs.getLast? == some c

def equalCaseLoop : Bytes → Bytes → Bool
  | a :: as, b :: bs =>
    if opensslTolower a ≠ opensslTolower b then false else equalCaseLoop as bs
  | _, _ => true

def equalCaseCbs (a b : Bytes) : Bool :=
  if a.length ≠ b.length then false else equalCaseLoop a b

def hasSuffixCase (a b : Bytes) : Bool :=
  if a.length < b.length then false else equalCaseCbs (a.drop (a.length - b.length)) b

def cbsGetUntilFirst (c : UInt8) : Option (Bytes × Bytes) :=
  if c ∈ cbs then some (cbs.takeWhile (· ≠ c), cbs.dropWhile (· ≠ c)) else none

def removeTrailingDot : Bytes :=
  if endsWithByte cbs '.'.toUInt8 then cbs.dropLast else cbs

/-! ### Names against a base -/

/-- `nc_dn`, on canonical encodings that are up to date. -/
def ncDn (nm base : X509Name) : X509V :=
  if base.canonEnc.length > nm.canonEnc.length then .permittedViolation
  else if base.canonEnc ≠ nm.canonEnc.take base.canonEnc.length then .permittedViolation
  else .ok

/-- An excluded wildcard in `nc_dns`: name and base are equal behind their first labels. -/
def wildcardParent (dns base : Bytes) : Bool :=
  if dns.take 2 = ['*'.toUInt8, '.'.toUInt8] then
    match cbsGetUntilFirst base '.'.toUInt8 with
    | some (_, rest) => equalCaseCbs (dns.drop 2) (rest.drop 1)
    | none => false
  else false

/-- The end of `nc_dns`: zero or more labels may be added on the left. -/
def ncDnsLabels (dns base : Bytes) : X509V :=
  if dns.length > base.length then
    match dns.drop (dns.length - base.length - 1) with
    | dot :: rest =>
      if dot ≠ '.'.toUInt8 then .permittedViolation
      else if equalCaseCbs rest base then .ok else .permittedViolation
    | [] => .permittedViolation
  else if equalCaseCbs dns base then .ok else .permittedViolation

def ncDns (dns base : Bytes) (excluding : Bool) : X509V :=
  -- empty matches everything
  if base.length = 0 then .ok
  else
    let dns := removeTrailingDot dns
    let base := removeTrailingDot base
    if excluding && wildcardParent dns base then .ok
    else if startsWith base '.'.toUInt8 then
      if hasSuffixCase dns base then .ok else .permittedViolation
    else ncDnsLabels dns base

/-- The characters of `is_valid_rfc822_local_part`, besides letters and digits. -/
def atext : Bytes := "!#$%&'*+-/=?^_`\x7b|\x7d~.".toUTF8.toList

def isValidRfc822LocalPart : Bool :=
  cbs.length ≠ 0 && cbs.all fun c => opensslIsalnum c || atext.contains c

def isValidRfc822Domain : Bool :=
  cbs.length ≠ 0 && cbs.all fun c => opensslIsalnum c || c == '-'.toUInt8 || c == '.'.toUInt8

/-- The end of `nc_email`, for a base that has an `@`. -/
def ncEmailMailbox (emlLocal emlDomain baseLocal baseDomain : Bytes) (excluding : Bool) : X509V :=
  if baseLocal.length = 0 then .unsupportedNameSyntax
  else if '@'.toUInt8 ∈ baseDomain then .unsupportedNameSyntax
  else if !isValidRfc822LocalPart baseLocal || !isValidRfc822Domain baseDomain then
    .unsupportedNameSyntax
  else if !(if excluding then equalCaseCbs baseLocal emlLocal else baseLocal == emlLocal) then
    .permittedViolation
  else if !equalCaseCbs baseDomain emlDomain then .permittedViolation
  else .ok

def ncEmail (eml base : Bytes) (excluding : Bool) : X509V :=
  match cbsGetUntilFirst eml '@'.toUInt8 with
  | none => .unsupportedNameSyntax
  | some (emlLocal, rest) =>
    let emlDomain := rest.drop 1
    if '@'.toUInt8 ∈ emlDomain then .unsupportedNameSyntax
    else if !isValidRfc822LocalPart emlLocal || !isValidRfc822Domain emlDomain then
      .unsupportedNameSyntax
    else
      match cbsGetUntilFirst base '@'.toUInt8 with
      | some (baseLocal, rest) =>
        ncEmailMailbox emlLocal emlDomain baseLocal (rest.drop 1) excluding
      | none =>
        if !isValidRfc822Domain base then .unsupportedNameSyntax
        else if startsWith base '.'.toUInt8 then
          if hasSuffixCase emlDomain base then .ok else .permittedViolation
        else if !equalCaseCbs base emlDomain then .permittedViolation
        else .ok

/-- The host of a URI behind its scheme, in `nc_uri`: up to a port, a slash or the end. -/
def uriHost (uri : Bytes) : Bytes :=
  match cbsGetUntilFirst uri ':'.toUInt8 with
  | some (host, _) => host
  | none =>
    match cbsGetUntilFirst uri '/'.toUInt8 with
    | some (host, _) => host
    | none => uri

/-- The end of `nc_uri`, from the host on. -/
def ncUriHost (host base : Bytes) : X509V :=
  if host.length = 0 then .unsupportedNameSyntax
  else
    let host := removeTrailingDot host
    let base := removeTrailingDot base
    if !isValidRfc822Domain host then .unsupportedNameSyntax
    else if startsWith base '.'.toUInt8 then
      if hasSuffixCase host base then .ok else .permittedViolation
    else if !equalCaseCbs base host then .permittedViolation
    else .ok

def ncUri (uri base : Bytes) : X509V :=
  match cbsGetUntilFirst uri ':'.toUInt8 with
  | none => .unsupportedNameSyntax
  | some (_, rest) =>
    if (rest.drop 1).take 2 ≠ ['/'.toUInt8, '/'.toUInt8] then .unsupportedNameSyntax
    else
      let uri := rest.drop 3
      if startsWith uri '['.toUInt8 then .unsupportedNameSyntax
      else if '@'.toUInt8 ∈
          uri.takeWhile (fun c => c ≠ '/'.toUInt8 ∧ c ≠ '?'.toUInt8 ∧ c ≠ '#'.toUInt8) then
        .unsupportedNameSyntax
      else ncUriHost (uriHost uri) base

/-- Ones followed by zeros, in `validate_ipv4_cidr_mask` and `validate_ipv6_cidr_mask`. -/
def isPrefixMask (width mask : Nat) : Bool :=
  mask = 0 ∨ ((2 ^ width - 1 - mask + 1) % 2 ^ width) &&& (2 ^ width - 1 - mask) = 0

def maskValue (mask : Bytes) : Nat := mask.foldl (fun value byte => value * 256 + byte.toNat) 0

def validateCidrMask (mask : Bytes) : Bool :=
  if mask.length = 4 then isPrefixMask 32 (maskValue mask)
  else if mask.length = 16 then
    let maskHigh := maskValue (mask.take 8)
    let maskLow := maskValue (mask.drop 8)
    if maskHigh = 0 then maskLow == 0
    else if !isPrefixMask 64 maskHigh then false
    else if maskHigh ≠ 2 ^ 64 - 1 then maskLow == 0
    else isPrefixMask 64 maskLow
  else false

def ncIp (ip base : Bytes) : X509V :=
  if ¬(ip.length = 4 ∨ ip.length = 16) ∨ ¬(base.length = 8 ∨ base.length = 32) then
    .unsupportedNameSyntax
  else if ip.length * 2 ≠ base.length then .permittedViolation
  else
    let addr := base.take ip.length
    let mask := base.drop ip.length
    if !validateCidrMask mask then .unsupportedNameSyntax
    else if List.zipWith (· &&& ·) ip mask ≠ List.zipWith (· &&& ·) addr mask then
      .permittedViolation
    else .ok

def ncMatchSingle (excluding : Bool) : GeneralName → GeneralName → X509V
  | .dirName nm, .dirName base => ncDn nm base
  | .dns dns, .dns base => ncDns dns.data base.data excluding
  | .email eml, .email base => ncEmail eml.data base.data excluding
  | .uri uri, .uri base => ncUri uri.data base.data
  | .ipAdd ip, .ipAdd base => ncIp ip.data base.data
  | _, _ => .unsupportedConstraintType

def GeneralName.sameType : GeneralName → GeneralName → Bool
  | .otherName _, .otherName _ => true
  | .email _, .email _ => true
  | .dns _, .dns _ => true
  | .x400 _, .x400 _ => true
  | .dirName _, .dirName _ => true
  | .ediParty _, .ediParty _ => true
  | .uri _, .uri _ => true
  | .ipAdd _, .ipAdd _ => true
  | .rid _, .rid _ => true
  | _, _ => false

/-- The loop of `nc_match` over the permitted subtrees: the value of `match` at its end. -/
def permittedLoop (gen : GeneralName) : List GeneralSubtree → (found : Nat) → Except X509V Nat
  | [], found => .ok found
  | sub :: subs, found =>
    if !gen.sameType sub.base then permittedLoop gen subs found
    else if sub.minimum || sub.maximum then .error .subtreeMinmax
    else if found = 2 then permittedLoop gen subs found
    else
      let found := 1
      let r := ncMatchSingle false gen sub.base
      if r = .ok then permittedLoop gen subs 2
      else if r ≠ .permittedViolation then .error r
      else permittedLoop gen subs found

/-- The loop of `nc_match` over the excluded subtrees. -/
def excludedLoop (gen : GeneralName) : List GeneralSubtree → X509V
  | [] => .ok
  | sub :: subs =>
    if !gen.sameType sub.base then excludedLoop gen subs
    else if sub.minimum || sub.maximum then .subtreeMinmax
    else
      let r := ncMatchSingle true gen sub.base
      if r = .ok then .excludedViolation
      else if r ≠ .permittedViolation then r
      else excludedLoop gen subs

def ncMatch (gen : GeneralName) (nc : NameConstraints) : X509V :=
  match permittedLoop gen nc.permittedSubtrees 0 with
  | .error r => r
  | .ok found =>
    if found = 1 then .permittedViolation else excludedLoop gen nc.excludedSubtrees

def ncMatchAll (nc : NameConstraints) : List GeneralName → X509V
  | [] => .ok
  | gen :: gens => if ncMatch gen nc ≠ .ok then ncMatch gen nc else ncMatchAll nc gens

/-- The loop of `NAME_CONSTRAINTS_check` over the addresses in a subject. -/
def emailLoop (nc : NameConstraints) : List Asn1String → X509V
  | [] => .ok
  | email :: emails =>
    if email.type ≠ .ia5String then .unsupportedNameSyntax
    else if ncMatch (.email email) nc ≠ .ok then ncMatch (.email email) nc
    else emailLoop nc emails

def checkSubject (x : X509) (nc : NameConstraints) : X509V :=
  if x.info.subject.entries.length > 0 then
    let r := ncMatch (.dirName x.info.subject) nc
    if r ≠ .ok then r else emailLoop nc (subjectOf .emailAddress x)
  else .ok

/-- `NAME_CONSTRAINTS_check`, where the numbers of names and constraints do not overflow. -/
def nameConstraintsCheck (x : X509) (nc : NameConstraints) : X509V :=
  let altname := x.info.subjectAltName.value?.getD []
  let nameCount := x.info.subject.entries.length + altname.length
  let constraintCount := nc.permittedSubtrees.length + nc.excludedSubtrees.length
  if constraintCount * nameCount > 2 ^ 20 then .unspecified
  else
    let r := checkSubject x nc
    if r ≠ .ok then r else ncMatchAll nc altname

/-! ### Common names -/

/-- The loop of `cn2dnsid`, from a character whose predecessor is `before`: whether the name
looks like a DNS name, and whether it has characters that no DNS name has. -/
def dnsNameLoop : (before : Option UInt8) → Bytes → (isDnsName hasNonDnsChar : Bool) → Bool × Bool
  | _, [], isDnsName, hasNonDnsChar => (isDnsName, hasNonDnsChar)
  | before, c :: rest, isDnsName, hasNonDnsChar =>
    if opensslIsalnum c ∨ c = '_'.toUInt8 then dnsNameLoop (some c) rest isDnsName hasNonDnsChar
    else if c ≥ 0x80 ∨ c ≤ 0x20 ∨ c = 0x7f then dnsNameLoop (some c) rest isDnsName true
    else
      -- dot and hyphen cannot be first or last
      match before, rest with
      | some before, next :: _ =>
        if c = '-'.toUInt8 then dnsNameLoop (some c) rest isDnsName hasNonDnsChar
        else if c = '.'.toUInt8 ∧ next ≠ '.'.toUInt8 ∧ before ≠ '-'.toUInt8 ∧
            next ≠ '-'.toUInt8 then
          dnsNameLoop (some c) rest true hasNonDnsChar
        else (false, hasNonDnsChar)
      | _, _ => (false, hasNonDnsChar)

def removeTrailingNuls (value : Bytes) : Bytes := value.rdropWhile (· = 0)

/-- The part of a name that `cn2dnsid` looks at: not the wildcard. -/
def checkedPart (value : Bytes) : Bytes :=
  if value.length > 2 ∧ value.take 2 = ['*'.toUInt8, '.'.toUInt8] then value.drop 2 else value

/-- `cn2dnsid` on a name that has been converted: the name to compare, which is empty for what
does not look like a DNS name, or an error. -/
def cn2dnsid (value : Bytes) : Except X509V Bytes :=
  let value := removeTrailingNuls value
  if 0 ∈ value then .error .unsupportedNameSyntax
  else
    let (isDnsName, hasNonDnsChar) := dnsNameLoop none (checkedPart value) false false
    if isDnsName && hasNonDnsChar then .error .unsupportedNameSyntax
    else if isDnsName then .ok value
    else .ok []

/-- The loop of `NAME_CONSTRAINTS_check_CN` over the common names: its result, and the names that
it compared. -/
def checkCnLoop (toUtf8 : Asn1String → Option Bytes) (nc : NameConstraints) :
    List Asn1String → X509V × List Bytes
  | [] => (.ok, [])
  | cn :: cns =>
    match toUtf8 cn with
    | none => (.outOfMem, [])
    | some value =>
      match cn2dnsid value with
      | .error ret => (ret, [])
      | .ok [] => checkCnLoop toUtf8 nc cns
      | .ok idval =>
        let ret := ncMatch (.dns ⟨.ia5String, idval⟩) nc
        if ret ≠ .ok then (ret, [idval])
        else
          let (ret, compared) := checkCnLoop toUtf8 nc cns
          (ret, idval :: compared)

def nameConstraintsCheckCn (toUtf8 : Asn1String → Option Bytes) (x : X509) (nc : NameConstraints) :
    X509V × List Bytes :=
  checkCnLoop toUtf8 nc (subjectOf .commonName x)

/-! ### The host of a URI -/

def endsAuthority (c : UInt8) : Bool := c = '/'.toUInt8 ∨ c = '?'.toUInt8 ∨ c = '#'.toUInt8

theorem cbsGetUntilFirst_eq_some {cbs first rest : Bytes} {c : UInt8}
    (h : cbsGetUntilFirst cbs c = some (first, rest)) :
    c ∉ first ∧ ∃ tail, rest = c :: tail ∧ cbs = first ++ c :: tail := by
  unfold cbsGetUntilFirst at h
  split at h
  · next hmem =>
    cases h
    refine ⟨fun hc => by simpa using List.mem_takeWhile_imp hc, ?_⟩
    have hjoin := List.takeWhile_append_dropWhile (p := (· ≠ c)) (l := cbs)
    cases hdrop : cbs.dropWhile (· ≠ c) with
    | nil => simpa using List.dropWhile_eq_nil_iff.mp hdrop c hmem
    | cons d tail =>
      have hstop := List.head?_dropWhile_not (· ≠ c) cbs
      rw [hdrop] at hjoin hstop
      obtain rfl : d = c := by simpa using hstop
      exact ⟨tail, rfl, hjoin.symm⟩
  · cases h

/-- The host is followed by a port, by a slash, or by nothing. -/
theorem uriHost_append (uri : Bytes) :
    ∃ tail, uri = uriHost uri ++ tail ∧ ∀ c ∈ tail.head?, c = ':'.toUInt8 ∨ c = '/'.toUInt8 := by
  unfold uriHost
  split
  · next host rest hcolon =>
    obtain ⟨-, tail, -, huri⟩ := cbsGetUntilFirst_eq_some hcolon
    exact ⟨_, huri, by simp⟩
  · split
    · next host rest hslash =>
      obtain ⟨-, tail, -, huri⟩ := cbsGetUntilFirst_eq_some hslash
      exact ⟨_, huri, by simp⟩
    · exact ⟨[], (List.append_nil uri).symm, by simp⟩

theorem host_chars {host : Bytes} (h : isValidRfc822Domain (removeTrailingDot host) = true) :
    ∀ c ∈ host, c ≠ ':'.toUInt8 ∧ endsAuthority c = false := by
  intro c hc
  have hvalid : (opensslIsalnum c || c == '-'.toUInt8 || c == '.'.toUInt8) = true := by
    have hall := List.all_eq_true.mp (Bool.and_eq_true_iff.mp h).2
    unfold removeTrailingDot at hall
    split at hall
    · next hdot =>
      rw [endsWithByte, beq_iff_eq] at hdot
      rw [← List.dropLast_append_getLast? _ hdot, List.mem_append, List.mem_singleton] at hc
      rcases hc with hc | rfl
      · exact hall c hc
      · rfl
    · exact hall c hc
  constructor
  · rintro rfl
    exact absurd hvalid (by decide)
  · rw [endsAuthority, decide_eq_false_iff_not]
    rintro (rfl | rfl | rfl) <;> exact absurd hvalid (by decide)

/-- What `nc_uri` has checked when it compares a host. -/
theorem ncUri_compared {uri base : Bytes} (h : ncUri uri base ≠ .unsupportedNameSyntax) :
    ∃ scheme behind, uri = scheme ++ ':'.toUInt8 :: '/'.toUInt8 :: '/'.toUInt8 :: behind ∧
      ':'.toUInt8 ∉ scheme ∧ '@'.toUInt8 ∉ behind.takeWhile (!endsAuthority ·) ∧
      ncUri uri base = ncUriHost (uriHost behind) base := by
  have hdelimiters : (fun c : UInt8 => decide (c ≠ '/'.toUInt8 ∧ c ≠ '?'.toUInt8 ∧
      c ≠ '#'.toUInt8)) = (!endsAuthority ·) := by
    funext c
    simp [endsAuthority]
  unfold ncUri at h ⊢
  split at h
  · exact absurd rfl h
  next scheme rest hscheme =>
  obtain ⟨hfirst, tail, rfl, rfl⟩ := cbsGetUntilFirst_eq_some hscheme
  split at h
  · exact absurd rfl h
  next hslashes =>
  obtain ⟨behind, rfl⟩ : ∃ behind, tail = ['/'.toUInt8, '/'.toUInt8] ++ behind :=
    ⟨tail.drop 2, by rw [← not_not.mp hslashes]; exact (List.take_append_drop 2 tail).symm⟩
  rw [if_neg hslashes, hdelimiters] at *
  refine ⟨scheme, behind, rfl, hfirst, ?_⟩
  dsimp only [List.cons_append, List.nil_append, List.drop_succ_cons, List.drop_zero] at h ⊢
  split at h
  · exact absurd rfl h
  next hliteral =>
  split at h
  · exact absurd rfl h
  next huser =>
  rw [if_neg hliteral, if_neg huser]
  exact ⟨huser, rfl⟩

/-- **URI constraints look at the host of the authority.**  A URI that `nc_uri` compares has an
    authority without user information, and what is compared is the authority without its port
    and without one trailing dot. -/
theorem uri_constraint_host (uri base : Bytes) (h : ncUri uri base ≠ .unsupportedNameSyntax) :
    ∃ scheme authority rest host port : Bytes,
      uri = scheme ++ [':'.toUInt8, '/'.toUInt8, '/'.toUInt8] ++ authority ++ rest ∧
      ':'.toUInt8 ∉ scheme ∧ (∀ c ∈ authority, endsAuthority c = false) ∧
      (∀ c ∈ rest.head?, endsAuthority c = true) ∧ '@'.toUInt8 ∉ authority ∧
      authority = host ++ port ∧ ':'.toUInt8 ∉ host ∧ (∀ c ∈ port.head?, c = ':'.toUInt8) ∧
      ncUri uri base =
        (let host := removeTrailingDot host
        let base := removeTrailingDot base
        if startsWith base '.'.toUInt8 then
          if hasSuffixCase host base then .ok else .permittedViolation
        else if equalCaseCbs base host then .ok else .permittedViolation) := by
  obtain ⟨scheme, behind, rfl, hscheme, huser, hresult⟩ := ncUri_compared h
  rw [hresult] at h ⊢
  obtain ⟨tail, hbehind, htail⟩ := uriHost_append behind
  generalize uriHost behind = host at h hbehind ⊢
  unfold ncUriHost at h ⊢
  split at h
  · exact absurd rfl h
  next hlength =>
  rw [if_neg hlength]
  dsimp only at h ⊢
  split at h
  · exact absurd rfl h
  next hdomain =>
  have hchars := host_chars (by simpa using hdomain)
  rw [hbehind, List.takeWhile_append_of_pos (by simpa using fun c hc => (hchars c hc).2)] at huser
  refine ⟨scheme, host ++ tail.takeWhile (!endsAuthority ·), tail.dropWhile (!endsAuthority ·),
    host, tail.takeWhile (!endsAuthority ·), ?_, hscheme, ?_, ?_, huser, rfl,
    fun hc => (hchars _ hc).1 rfl, ?_, ?_⟩
  · rw [hbehind]
    simp
  · intro c hc
    rcases List.mem_append.mp hc with hc | hc
    · exact (hchars c hc).2
    · simpa using List.mem_takeWhile_imp hc
  · intro c hc
    have hstop := List.head?_dropWhile_not (!endsAuthority ·) tail
    rw [Option.mem_def.mp hc] at hstop
    simpa using hstop
  · intro c hc
    cases tail with
    | nil => cases hc
    | cons d tail =>
      rcases htail d rfl with rfl | rfl
      · cases hc
        rfl
      · cases hc
  · rw [if_neg hdomain]
    cases equalCaseCbs (removeTrailingDot base) (removeTrailingDot host) <;> rfl

theorem uri_constraint_host_port :
    ncUri [0x78, 0x3a, 0x2f, 0x2f, 0x62, 0x2e, 0x61, 0x3a, 0x31, 0x2f] [0x2e, 0x61] = .ok ∧
      ∃ scheme authority rest : Bytes,
        [0x78, 0x3a, 0x2f, 0x2f, 0x62, 0x2e, 0x61, 0x3a, 0x31, 0x2f] =
          scheme ++ [':'.toUInt8, '/'.toUInt8, '/'.toUInt8] ++ authority ++ rest ∧
        ':'.toUInt8 ∉ scheme ∧ '@'.toUInt8 ∉ authority := by
  refine ⟨by decide, ?_⟩
  obtain ⟨scheme, authority, rest, -, -, huri, hscheme, -, -, huser, -⟩ := uri_constraint_host
    [0x78, 0x3a, 0x2f, 0x2f, 0x62, 0x2e, 0x61, 0x3a, 0x31, 0x2f] [0x2e, 0x61] (by decide)
  exact ⟨scheme, authority, rest, huri, hscheme, huser⟩

end AwsLc
