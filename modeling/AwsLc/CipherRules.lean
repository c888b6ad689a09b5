import AwsLc.CipherOrder

/-!
# Cipher strings (`ssl_cipher.cc`)

A command of a cipher string adds ciphers, deletes them (`-`), moves them to the end (`+`) or
removes them for good (`!`); `@STRENGTH` sorts the list, and ciphers added between brackets form a
group of equal preference.  One step of the machine is one round of the outer loop of the source.
-/

namespace AwsLc

open Linked

/-! ### The collected list -/

def collectedCiphers (configTls13 : Bool) : List SslCipher :=
  kCiphers.filter fun cipher =>
    (configTls13 ∧ cipher.algorithmMkey = SSL_kGENERIC) ∨
      (¬configTls13 ∧ cipher.algorithmMkey ≠ SSL_kGENERIC)

def sslCipherCollectCiphers (configTls13 : Bool) : CipherList :=
  let ciphers := collectedCiphers configTls13
  { coList := fun i =>
      { cipher := ciphers.getD i default
        active := false
        inGroup := false
        next := if i + 1 < ciphers.length then some (i + 1) else none
        prev := if 0 < i ∧ i < ciphers.length then some (i - 1) else none }
    head := if 0 < ciphers.length then some 0 else none
    tail := if 0 < ciphers.length then some (ciphers.length - 1) else none }

structure CipherAlias where
  name : String
  algorithmMkey : UInt32
  algorithmAuth : UInt32
  algorithmEnc : UInt32
  algorithmMac : UInt32
  minVersion : UInt16

def anyAlgorithm : UInt32 := 0xffffffff

def SSL_AES : UInt32 := SSL_AES128 ||| SSL_AES256 ||| SSL_AES128GCM ||| SSL_AES256GCM

def kCipherAliases : List CipherAlias := [
  ⟨"ALL", anyAlgorithm, anyAlgorithm, ~~~(SSL_3DES ||| SSL_eNULL), anyAlgorithm, 0⟩,
  -- key exchange aliases
  ⟨"kRSA", SSL_kRSA, anyAlgorithm, anyAlgorithm, anyAlgorithm, 0⟩,
  ⟨"kECDHE", SSL_kECDHE, anyAlgorithm, anyAlgorithm, anyAlgorithm, 0⟩,
  ⟨"kEECDH", SSL_kECDHE, anyAlgorithm, anyAlgorithm, anyAlgorithm, 0⟩,
  ⟨"ECDH", SSL_kECDHE, anyAlgorithm, anyAlgorithm, anyAlgorithm, 0⟩,
  ⟨"kPSK", SSL_kPSK, anyAlgorithm, anyAlgorithm, anyAlgorithm, 0⟩,
  -- server authentication aliases
  ⟨"aRSA", anyAlgorithm, SSL_aRSA, anyAlgorithm, anyAlgorithm, 0⟩,
  ⟨"aECDSA", anyAlgorithm, SSL_aECDSA, anyAlgorithm, anyAlgorithm, 0⟩,
  ⟨"ECDSA", anyAlgorithm, SSL_aECDSA, anyAlgorithm, anyAlgorithm, 0⟩,
  ⟨"aPSK", anyAlgorithm, SSL_aPSK, anyAlgorithm, anyAlgorithm, 0⟩,
  -- aliases combining key exchange and server authentication
  ⟨"ECDHE", SSL_kECDHE, anyAlgorithm, anyAlgorithm, anyAlgorithm, 0⟩,
  ⟨"EECDH", SSL_kECDHE, anyAlgorithm, anyAlgorithm, anyAlgorithm, 0⟩,
  ⟨"RSA", SSL_kRSA, SSL_aRSA, anyAlgorithm, anyAlgorithm, 0⟩,
  ⟨"PSK", SSL_kPSK, SSL_aPSK, anyAlgorithm, anyAlgorithm, 0⟩,
  -- symmetric encryption aliases
  ⟨"3DES", anyAlgorithm, anyAlgorithm, SSL_3DES, anyAlgorithm, 0⟩,
  ⟨"AES128", anyAlgorithm, anyAlgorithm, SSL_AES128 ||| SSL_AES128GCM, anyAlgorithm, 0⟩,
  ⟨"AES256", anyAlgorithm, anyAlgorithm, SSL_AES256 ||| SSL_AES256GCM, anyAlgorithm, 0⟩,
  ⟨"AES", anyAlgorithm, anyAlgorithm, SSL_AES, anyAlgorithm, 0⟩,
  ⟨"AESGCM", anyAlgorithm, anyAlgorithm, SSL_AES128GCM ||| SSL_AES256GCM, anyAlgorithm, 0⟩,
  ⟨"CHACHA20", anyAlgorithm, anyAlgorithm, SSL_CHACHA20POLY1305, anyAlgorithm, 0⟩,
  -- MAC aliases
  ⟨"SHA384", anyAlgorithm, anyAlgorithm, anyAlgorithm, SSL_SHA384, 0⟩,
  ⟨"SHA256", anyAlgorithm, anyAlgorithm, anyAlgorithm, SSL_SHA256, 0⟩,
  ⟨"SHA1", anyAlgorithm, anyAlgorithm, anyAlgorithm, SSL_SHA1, 0⟩,
  ⟨"SHA", anyAlgorithm, anyAlgorithm, anyAlgorithm, SSL_SHA1, 0⟩,
  -- legacy protocol minimum version aliases
  ⟨"SSLv3", anyAlgorithm, anyAlgorithm, ~~~SSL_3DES, anyAlgorithm, SSL3_VERSION⟩,
  ⟨"TLSv1", anyAlgorithm, anyAlgorithm, ~~~SSL_3DES, anyAlgorithm, SSL3_VERSION⟩,
  ⟨"TLSv1.2", anyAlgorithm, anyAlgorithm, ~~~SSL_3DES, anyAlgorithm, TLS1_2_VERSION⟩]

def isCipherListSeparator (c : UInt8) (isStrict : Bool) : Bool :=
  if c = ':'.toUInt8 then true
  else !isStrict && (c = ' '.toUInt8 || c = ';'.toUInt8 || c = ','.toUInt8)

def ruleEquals (rule : String) (buf : Bytes) : Bool := rule.toUTF8.toList = buf

structure Selection where
  cipherId : UInt32 := 0
  algMkey : UInt32 := anyAlgorithm
  algAuth : UInt32 := anyAlgorithm
  algEnc : UInt32 := anyAlgorithm
  algMac : UInt32 := anyAlgorithm
  minVersion : UInt16 := 0
  skipRule : Bool := false

def findCipher (configTls13 : Bool) (buf : Bytes) : Option SslCipher :=
  kCiphers.find? fun cipher =>
    ¬((configTls13 ∧ cipher.algorithmMkey ≠ SSL_kGENERIC) ∨
      (¬configTls13 ∧ cipher.algorithmMkey = SSL_kGENERIC)) ∧
    (ruleEquals cipher.name buf ∨ ruleEquals cipher.standardName buf)

def Selection.narrow (selection : Selection) (entry : CipherAlias) : Selection :=
  { selection with
    algMkey := selection.algMkey &&& entry.algorithmMkey
    algAuth := selection.algAuth &&& entry.algorithmAuth
    algEnc := selection.algEnc &&& entry.algorithmEnc
    algMac := selection.algMac &&& entry.algorithmMac
    skipRule := selection.skipRule ||
      (selection.minVersion ≠ 0 ∧ selection.minVersion ≠ entry.minVersion)
    minVersion := if selection.minVersion ≠ 0 ∧ selection.minVersion ≠ entry.minVersion then
      selection.minVersion else entry.minVersion }

/-- What a word of a command selects; `ch` is the byte behind it. -/
def selectWord (strict configTls13 multi : Bool) (ch : UInt8) (buf : Bytes)
    (selection : Selection) : Option Selection :=
  -- exact ciphers are not allowed in multipart rules
  let found := if ¬multi ∧ ch ≠ '+'.toUInt8 then findCipher configTls13 buf else none
  let cipherId : UInt32 := match found with
    | some cipher => cipher.id
    | none => selection.cipherId
  if cipherId = 0 then
    match kCipherAliases.find? fun entry => ruleEquals entry.name buf with
    | some entry => some (selection.narrow entry)
    | none => if strict then none else some { selection with skipRule := true }
  else some { selection with cipherId }

def isWordByte (ch : UInt8) : Bool :=
  opensslIsalnum ch || ch = '-'.toUInt8 || ch = '.'.toUInt8 || ch = '_'.toUInt8

/-- The inner loop: the words of a command, separated by `+`.  It returns what they select, the
    last word and what is left of the string, or fails. -/
def readWords (strict configTls13 : Bool) (rule : CipherRuleType) :
    (multi : Bool) → (selection : Selection) → (buf : Bytes) → (l : Bytes) →
      Option (Selection × Bytes × Bytes)
  | multi, selection, buf, [] =>
    if buf = [] then none
    else if rule = .special then some (selection, buf, [])
    else (selectWord strict configTls13 multi 0 buf selection).map fun selection =>
      (selection, buf, [])
  | multi, selection, buf, ch :: l =>
    if isWordByte ch then readWords strict configTls13 rule multi selection (buf ++ [ch]) l
    else if buf = [] then none
    else if rule = .special then some (selection, buf, ch :: l)
    else
      match selectWord strict configTls13 multi ch buf selection with
      | none => none
      | some selection =>
        if ch ≠ '+'.toUInt8 then some (selection, buf, ch :: l)
        else readWords strict configTls13 rule true selection [] l

/-- The nodes from `curr` on. -/
def CipherList.walk (list : CipherList) : (rounds : Nat) → (curr : Option Nat) → List Nat
  | 0, _ => []
  | _, none => []
  | rounds + 1, some curr => curr :: list.walk rounds (list.coList curr).next

def strengthRule (bits : Nat) : CipherRule :=
  { cipherId := 0, algMkey := 0, algAuth := 0, algEnc := 0, algMac := 0, minVersion := 0
    rule := .ord, strengthBits := bits, inGroup := false }

/-- The rules of `ssl_cipher_strength_sort`: one for each strength in use, greatest first. -/
def strengthSortRules (list : CipherList) : List CipherRule :=
  let active := (list.walk kCiphers.length list.head).filter fun i => (list.coList i).active
  let bits := active.map fun i => sslCipherGetBits (list.coList i).cipher
  let maxStrengthBits := bits.foldl max 0
  let used := (List.range (maxStrengthBits + 1)).reverse.filter fun i => bits.count i > 0
  used.map fun i => strengthRule i

/-! ### The outer loop -/

/-- The state of the outer loop.  `applied` logs the rules, each with the list after it. -/
structure RuleState where
  l : Bytes
  inGroup : Bool
  hasGroup : Bool
  list : CipherList
  applied : List (CipherRule × CipherList)

def RuleState.apply (state : RuleState) (rule : CipherRule) : RuleState :=
  let list := sslCipherApplyRule rule state.list
  { state with list, applied := state.applied ++ [(rule, list)] }

def sslCipherStrengthSort (state : RuleState) : RuleState :=
  (strengthSortRules state.list).foldl RuleState.apply state

inductive RuleResult where
  | next (state : RuleState)
  | done (accepted : Bool) (state : RuleState)

/-- `if (*tail_p) { (*tail_p)->in_group = false; }` -/
def CipherList.closeGroup (list : CipherList) : CipherList :=
  match list.tail with
  | some tail => list.modify tail fun node => { node with inGroup := false }
  | none => list

/-- A round from the check for groups on: `ch` starts the command, `l` is what is read next. -/
def ruleCommand (strict configTls13 : Bool) (rule : CipherRuleType) (ch : UInt8) (l : Bytes)
    (state : RuleState) : RuleResult :=
  if state.hasGroup ∧ rule ≠ .add then .done false state
  else if isCipherListSeparator ch strict then .next { state with l := l.tail }
  else
    match readWords strict configTls13 rule false {} [] l with
    | none => .done false state
    | some (selection, buf, rest) =>
      if rule = .special then
        if ¬ruleEquals "STRENGTH" buf then .done false state
        else
          -- the rest of the command is thrown away
          .next (sslCipherStrengthSort
            { state with l := rest.dropWhile fun c => c ≠ 0 ∧ ¬isCipherListSeparator c strict })
      else if selection.skipRule then .next { state with l := rest }
      else
        .next (RuleState.apply { state with l := rest }
          { cipherId := selection.cipherId, algMkey := selection.algMkey
            algAuth := selection.algAuth, algEnc := selection.algEnc, algMac := selection.algMac
            minVersion := selection.minVersion, rule, strengthBits := -1
            inGroup := state.inGroup })

/-- A round of the outer loop of `ssl_cipher_process_rulestr`. -/
def ruleStep (strict configTls13 : Bool) (state : RuleState) : RuleResult :=
  match state.l with
  | [] => .done (!state.inGroup) state
  | ch :: rest =>
    if ch = 0 then .done (!state.inGroup) state
    else if state.inGroup then
      if ch = ']'.toUInt8 then
        .next { state with l := rest, inGroup := false, list := state.list.closeGroup }
      else if ch = '|'.toUInt8 then .next { state with l := rest }
      else if ¬opensslIsalnum ch then .done false state
      else ruleCommand strict configTls13 .add ch (ch :: rest) state
    else if ch = '-'.toUInt8 then ruleCommand strict configTls13 .del ch rest state
    else if ch = '+'.toUInt8 then ruleCommand strict configTls13 .ord ch rest state
    else if ch = '!'.toUInt8 then ruleCommand strict configTls13 .kill ch rest state
    else if ch = '@'.toUInt8 then ruleCommand strict configTls13 .special ch rest state
    else if ch = '['.toUInt8 then .next { state with l := rest, inGroup := true, hasGroup := true }
    else ruleCommand strict configTls13 .add ch (ch :: rest) state

def ruleRun (strict configTls13 : Bool) : (rounds : Nat) → RuleState → RuleResult
  | 0, state => .next state
  | rounds + 1, state =>
    match ruleStep strict configTls13 state with
    | .next state => ruleRun strict configTls13 rounds state
    | .done accepted state => .done accepted state

/-- `ssl_cipher_process_rulestr`: whether it accepts the string, and the state it ends in. -/
def sslCipherProcessRulestr (strict configTls13 : Bool) (ruleStr : Bytes) (list : CipherList) :
    RuleResult :=
  ruleRun strict configTls13 (ruleStr.length + 1)
    { l := ruleStr, inGroup := false, hasGroup := false, list, applied := [] }

end AwsLc
