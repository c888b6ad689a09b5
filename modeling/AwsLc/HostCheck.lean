import AwsLc.X509

/-!
# Host names (`crypto/x509/v3_utl.c`)

`X509_check_host` and its relatives: the comparison of a host with the names of a certificate,
without wildcards (`equal_nocase`) and with them (`equal_wildcard`).

`ASN1_STRING_to_UTF8`, which the common names are converted with, is a parameter.
-/

namespace AwsLc

/-- The flags of `X509_check_host`.  The last one is internal. -/
structure CheckFlags where
  alwaysCheckSubject : Bool
  noWildcards : Bool
  singleLabelSubdomains : Bool
  neverCheckSubject : Bool
  dotSubdomains : Bool
deriving DecidableEq, Repr

/-! ### Comparing -/

def skipPrefixLoop (flags : CheckFlags) (subjectLen : Nat) : Bytes → Bytes
  | [] => []
  | c :: pattern =>
    if pattern.length + 1 > subjectLen ∧ c ≠ 0 then
      if flags.singleLabelSubdomains ∧ c = '.'.toUInt8 then c :: pattern
      else skipPrefixLoop flags subjectLen pattern
    else c :: pattern

variable (flags : CheckFlags)

def skipPrefix (pattern : Bytes) (subjectLen : Nat) : Bytes :=
  if !flags.dotSubdomains then pattern
  else
    let skipped := skipPrefixLoop flags subjectLen pattern
    if skipped.length = subjectLen then skipped else pattern

/-- The loop of `equal_nocase`.  The pattern must not contain zero bytes. -/
def equalNocaseLoop : Bytes → Bytes → Bool
  | l :: pattern, r :: subject =>
    if l = 0 then false
    else if l ≠ r ∧ opensslTolower l ≠ opensslTolower r then false
    else equalNocaseLoop pattern subject
  | _, _ => true

def equalNocase (pattern subject : Bytes) : Bool :=
  let pattern := skipPrefix flags pattern subject.length
  if pattern.length ≠ subject.length then false else equalNocaseLoop pattern subject

def equalCase (pattern subject : Bytes) : Bool :=
  let pattern := skipPrefix flags pattern subject.length
  if pattern.length ≠ subject.length then false else pattern == subject

def CheckFlags.none : CheckFlags := ⟨false, false, false, false, false⟩

/-- The backwards search of `equal_email`, for `@` before position `i`. -/
def emailAt (a b : Bytes) : Nat → Option Nat
  | 0 => .none
  | i + 1 =>
    if a.getD i 0 = '@'.toUInt8 ∨ b.getD i 0 = '@'.toUInt8 then some i else emailAt a b i

def equalEmail (_ : CheckFlags) (a b : Bytes) : Bool :=
  if a.length ≠ b.length then false
  else
    match emailAt a b a.length with
    | .none => equalCase .none a b
    | some i =>
      if !equalNocase .none (a.drop i) (b.drop i) then false
      else
        let i := if i = 0 then a.length else i
        equalCase .none (a.take i) (b.take i)

/-- `OPENSSL_strncasecmp` with `xn--`, on four bytes or more. -/
def startsWithXn : Bytes → Bool
  | a :: b :: c :: d :: _ =>
    opensslTolower a == 'x'.toUInt8 && opensslTolower b == 'n'.toUInt8 && c == '-'.toUInt8 &&
      d == '-'.toUInt8
  | _ => false

def wildcardMatch (before suffix subject : Bytes) : Bool :=
  if subject.length < before.length + suffix.length then false
  else if !equalNocase flags before (subject.take before.length) then false
  else
    let wildcard := (subject.drop before.length).take
      (subject.length - suffix.length - before.length)
    if !equalNocase flags (subject.drop (subject.length - suffix.length)) suffix then false
    else
      -- a wildcard that is the whole first label
      let allowIdna := before.length == 0 && suffix.head? == some '.'.toUInt8
      if allowIdna && wildcard == [] then false
      else if !allowIdna && startsWithXn subject then false
      else if wildcard = ['*'.toUInt8] then true
      else wildcard.all fun c => opensslIsalnum c || c == '-'.toUInt8

/-- The bits of `state` in `valid_star`. -/
structure LabelState where
  start : Bool
  hyphen : Bool
  idna : Bool
deriving DecidableEq, Repr

def validStarLoop : (p : Bytes) → (i : Nat) → LabelState → (dots : Nat) → (star : Option Nat) →
    Option Nat
  | [], _, state, dots, star => if state.start ∨ state.hyphen ∨ dots < 2 then none else star
  | c :: p, i, state, dots, star =>
    if c = '*'.toUInt8 then
      if star.isSome ∨ state.idna ∨ dots ≠ 0 then none
      else if !state.start ∨ ¬(p = [] ∨ p.head? = some '.'.toUInt8) then none
      else validStarLoop p (i + 1) { state with start := false } dots (some i)
    else if opensslIsalnum c then
      let idna := state.idna || (state.start && startsWithXn (c :: p))
      validStarLoop p (i + 1) { start := false, hyphen := false, idna } dots star
    else if c = '.'.toUInt8 then
      if state.hyphen ∨ state.start then none
      else validStarLoop p (i + 1) { start := true, hyphen := false, idna := false } (dots + 1) star
    else if c = '-'.toUInt8 then
      if state.start then none
      else validStarLoop p (i + 1) { state with hyphen := true } dots star
    else none

def validStar (p : Bytes) : Option Nat :=
  validStarLoop p 0 { start := true, hyphen := false, idna := false } 0 none

def equalWildcard (pattern subject : Bytes) : Bool :=
  let star :=
    if subject.length > 1 ∧ subject.head? = some '.'.toUInt8 then none else validStar pattern
  match star with
  | none => equalNocase flags pattern subject
  | some star => wildcardMatch flags (pattern.take star) (pattern.drop (star + 1)) subject

/-! ### The names of a certificate -/

inductive CheckType where
  | email
  | dns
  | ipAdd
deriving DecidableEq, Repr

namespace CheckType

def string? : CheckType → GeneralName → Option Asn1String
  | .email, .email rfc822Name => some rfc822Name
  | .dns, .dns dNSName => some dNSName
  | .ipAdd, .ipAdd iPAddress => some iPAddress
  | _, _ => none

def altType : CheckType → Asn1Type
  | .ipAdd => .octetString
  | _ => .ia5String

def cnid : CheckType → Option AttributeType
  | .email => some .emailAddress
  | .dns => some .commonName
  | .ipAdd => none

def flagsFor (checkType : CheckType) (flags : CheckFlags) (chk : Bytes) : CheckFlags :=
  { flags with dotSubdomains :=
      checkType = .dns ∧ chk.length > 1 ∧ chk.head? = some '.'.toUInt8 }

def equal (checkType : CheckType) (flags : CheckFlags) : CheckFlags → Bytes → Bytes → Bool :=
  match checkType with
  | .email => equalEmail
  | .dns => if flags.noWildcards then equalNocase else equalWildcard
  | .ipAdd => equalCase

end CheckType

variable (toUtf8 : Asn1String → Option Bytes)

/-- `do_check_string`.  A type is given for the alternative names, which are not converted. -/
def doCheckString (a : Asn1String) (cmpType : Option Asn1Type)
    (equal : CheckFlags → Bytes → Bytes → Bool) (flags : CheckFlags) (b : Bytes) : Int :=
  if a.data.length = 0 then 0
  else
    match cmpType with
    | some cmpType =>
      if cmpType ≠ a.type then 0
      else if cmpType = .ia5String then if equal flags a.data b then 1 else 0
      else if a.data = b then 1 else 0
    | none =>
      match toUtf8 a with
      | none => -1
      | some astr => if equal flags astr b then 1 else 0

def firstNonzero (check : Asn1String → Int) : List Asn1String → Int
  | [] => 0
  | a :: strings => if check a ≠ 0 then check a else firstNonzero check strings

def altNamesOf (checkType : CheckType) (x : X509) : List Asn1String :=
  (x.info.subjectAltName.value?.getD []).filterMap checkType.string?

def subjectOf (cnid : AttributeType) (x : X509) : List Asn1String :=
  x.info.subject.entries.filterMap fun entry => if entry.1 = cnid then some entry.2 else none

def doX509Check (x : X509) (chk : Bytes) (flags : CheckFlags) (checkType : CheckType) : Int :=
  let equal := checkType.equal flags
  let flags := checkType.flagsFor flags chk
  let gens := altNamesOf checkType x
  let rv := firstNonzero
    (fun a => doCheckString toUtf8 a (some checkType.altType) equal flags chk) gens
  if rv ≠ 0 then rv
  else if gens ≠ [] ∧ flags.alwaysCheckSubject = false then 0
  else
    match checkType.cnid with
    | none => 0
    | some cnid =>
      if flags.neverCheckSubject then 0
      else
        firstNonzero (fun a => doCheckString toUtf8 a none equal flags chk) (subjectOf cnid x)

def x509CheckHost (x : X509) (chk : Bytes) (chklen : Nat) (flags : CheckFlags) : Int :=
  if chklen = 0 then doX509Check toUtf8 x (chk.takeWhile (· ≠ 0)) flags .dns
  else if 0 ∈ chk.take chklen then -2
  else doX509Check toUtf8 x (chk.take chklen) flags .dns

end AwsLc
