import AwsLc.Asn1Fields

/-!
# Transferring an `SSL_CONFIG` (`ssl_transfer_asn1.cc`)

`SSL_CONFIG_to_bytes` writes the two configured versions and an optional element
for each flag that is set.  `SSL_CONFIG_from_bytes` takes a flag whose element is
missing to have its default, which is true for the two `use_default` flags: the
format cannot say that one of them is false.
-/

namespace AwsLc

/-- The fields of `SSL_CONFIG` that the two functions read or write. -/
structure SslConfig where
  confMaxVersion : UInt16
  confMinVersion : UInt16
  confMaxVersionUseDefault : Bool
  confMinVersionUseDefault : Bool
  ocspStaplingEnabled : Bool
  jdk11Workaround : Bool
  handoff : Bool
  shedHandshakeConfig : Bool
deriving DecidableEq, Repr

def kSSLConfigVersion : UInt64 := 2

def kSSLConfigOcspStaplingEnabledTag : UInt32 :=
  CBS_ASN1_CONSTRUCTED ||| CBS_ASN1_CONTEXT_SPECIFIC ||| 0

def kSSLConfigJdk11WorkaroundTag : UInt32 :=
  CBS_ASN1_CONSTRUCTED ||| CBS_ASN1_CONTEXT_SPECIFIC ||| 1

def kSSLConfigConfMaxVersionUseDefault : UInt32 :=
  CBS_ASN1_CONSTRUCTED ||| CBS_ASN1_CONTEXT_SPECIFIC ||| 2

def kSSLConfigConfMinVersionUseDefault : UInt32 :=
  CBS_ASN1_CONSTRUCTED ||| CBS_ASN1_CONTEXT_SPECIFIC ||| 3

variable (config : SslConfig)

def sslConfigToBytes : Option Bytes := do
  let version ← cbbAddAsn1Uint64 kSSLConfigVersion
  let confMaxVersion ← cbbAddAsn1Uint64 config.confMaxVersion.toUInt64
  let confMinVersion ← cbbAddAsn1Uint64 config.confMinVersion.toUInt64
  let ocspStaplingEnabled ←
    cbbAddOptionalTrue kSSLConfigOcspStaplingEnabledTag config.ocspStaplingEnabled
  let jdk11Workaround ← cbbAddOptionalTrue kSSLConfigJdk11WorkaroundTag config.jdk11Workaround
  let confMaxVersionUseDefault ←
    cbbAddOptionalTrue kSSLConfigConfMaxVersionUseDefault config.confMaxVersionUseDefault
  let confMinVersionUseDefault ←
    cbbAddOptionalTrue kSSLConfigConfMinVersionUseDefault config.confMinVersionUseDefault
  cbbAddAsn1 CBS_ASN1_SEQUENCE (version ++ (confMaxVersion ++ (confMinVersion ++
    (ocspStaplingEnabled ++ (jdk11Workaround ++
      (confMaxVersionUseDefault ++ confMinVersionUseDefault))))))

/-- `SSL_CONFIG_from_bytes`, which fills in `out`.  The versions are read as 64-bit
    integers and truncated. -/
def sslConfigFromBytes (out : SslConfig) (cbs : Bytes) : Option (SslConfig × Bytes) := do
  let (config, rest) ← cbsGetAsn1 CBS_ASN1_SEQUENCE cbs
  let (version, config) ← cbsGetAsn1Uint64 config
  if version > kSSLConfigVersion then none
  let (confMaxVersion, config) ← cbsGetAsn1Uint64 config
  let (confMinVersion, config) ← cbsGetAsn1Uint64 config
  let (ocspStaplingEnabled, config) ←
    cbsGetOptionalAsn1Bool kSSLConfigOcspStaplingEnabledTag false config
  let (jdk11Workaround, config) ←
    cbsGetOptionalAsn1Bool kSSLConfigJdk11WorkaroundTag false config
  -- version 1 of the format ends here
  if version < 2 ∧ config ≠ [] then none
  let (confMaxVersionUseDefault, config) ←
    cbsGetOptionalAsn1Bool kSSLConfigConfMaxVersionUseDefault true config
  let (confMinVersionUseDefault, config) ←
    cbsGetOptionalAsn1Bool kSSLConfigConfMinVersionUseDefault true config
  if config ≠ [] then none
  return ({ out with
    confMaxVersion := confMaxVersion.toUInt16
    confMinVersion := confMinVersion.toUInt16
    confMaxVersionUseDefault
    confMinVersionUseDefault
    ocspStaplingEnabled
    jdk11Workaround
    handoff := false
    shedHandshakeConfig := false }, rest)

def SslConfig.SameTransferred (left right : SslConfig) : Prop :=
  left.confMaxVersion = right.confMaxVersion ∧ left.confMinVersion = right.confMinVersion ∧
  left.confMaxVersionUseDefault = right.confMaxVersionUseDefault ∧
  left.confMinVersionUseDefault = right.confMinVersionUseDefault ∧
  left.ocspStaplingEnabled = right.ocspStaplingEnabled ∧
  left.jdk11Workaround = right.jdk11Workaround

instance (left right : SslConfig) : Decidable (left.SameTransferred right) := by
  unfold SslConfig.SameTransferred
  infer_instance

/-- What a reader makes of a configuration: every field comes back, and the
    `use_default` flags come back set. -/
def SslConfig.transferred (config out : SslConfig) : SslConfig :=
  { out with
    confMaxVersion := config.confMaxVersion
    confMinVersion := config.confMinVersion
    confMaxVersionUseDefault := true
    confMinVersionUseDefault := true
    ocspStaplingEnabled := config.ocspStaplingEnabled
    jdk11Workaround := config.jdk11Workaround
    handoff := false
    shedHandshakeConfig := false }

theorem exists_sslConfigToBytes :
    ∃ bytes, sslConfigToBytes config = some bytes ∧ bytes.length ≤ 200 := by
  unfold sslConfigToBytes
  refine exists_bind (exists_cbbAddAsn1Uint64 _) fun version h₁ => ?_
  refine exists_bind (exists_cbbAddAsn1Uint64 _) fun maxVersion h₂ => ?_
  refine exists_bind (exists_cbbAddAsn1Uint64 _) fun minVersion h₃ => ?_
  refine exists_bind (exists_cbbAddOptionalTrue _ _) fun ocsp h₄ => ?_
  refine exists_bind (exists_cbbAddOptionalTrue _ _) fun jdk11 h₅ => ?_
  refine exists_bind (exists_cbbAddOptionalTrue _ _) fun maxDefault h₆ => ?_
  refine exists_bind (exists_cbbAddOptionalTrue _ _) fun minDefault h₇ => ?_
  refine exists_cbbAddAsn1 _ ?_ (by decide)
  simp only [List.length_append]
  omega

/-- The writer always succeeds, and the reader takes its output to `SslConfig.transferred`. -/
theorem sslConfigFromBytes_toBytes : ∃ bytes, sslConfigToBytes config = some bytes ∧
      ∀ out rest, sslConfigFromBytes out (bytes ++ rest) = some (config.transferred out, rest) := by
  obtain ⟨bytes, hbytes, -⟩ := exists_sslConfigToBytes config
  refine ⟨bytes, hbytes, fun out rest => ?_⟩
  simp only [sslConfigToBytes, Option.bind_eq_bind, Option.bind_eq_some_iff] at hbytes
  obtain ⟨version, hversion, maxVersion, hmaxVersion, minVersion, hminVersion, ocsp, hocsp,
    jdk11, hjdk11, maxDefault, hmaxDefault, minDefault, hminDefault, hbytes⟩ := hbytes
  have hsequence := cbsGetAsn1_cbbAddAsn1 tagReads_sequence hbytes rest
  have hreadVersion := cbsGetAsn1Uint64_reads hversion
  have hreadMax := cbsGetAsn1Uint64_reads hmaxVersion
  have hreadMin := cbsGetAsn1Uint64_reads hminVersion
  have hnone : cbbAddFields [] = some [] := rfl
  have hfields := cbbAddFields_optionalTrue hocsp (cbbAddFields_optionalTrue hjdk11
    (cbbAddFields_optionalTrue hmaxDefault (cbbAddFields_optionalTrue hminDefault hnone)))
  rw [List.append_nil] at hfields
  obtain ⟨rest₁, hocspRead, rest₂, hjdk11Read, rest₃, hmaxRead, rest₄, hminRead, rfl⟩ :=
    @readable_of_contextTags _ _ [0, 1, 2, 3] (by decide) (by decide) rfl hfields
  simp only [sslConfigFromBytes, hsequence, hreadVersion _, hreadMax _, hreadMin _,
    cbsGetOptionalAsn1Bool_flagChild hocspRead, cbsGetOptionalAsn1Bool_flagChild hjdk11Read,
    cbsGetOptionalAsn1Bool_flagChild hmaxRead, cbsGetOptionalAsn1Bool_flagChild hminRead,
    Option.bind_eq_bind, Option.bind_some]
  simp [SslConfig.transferred, kSSLConfigVersion]

/-- **When a configuration survives a transfer.**  The transfer always succeeds, and
    it restores every serialized field exactly when neither version has been
    configured away from its default. -/
theorem ssl_config_transfer_iff :
    (∃ bytes, sslConfigToBytes config = some bytes ∧ ∀ out rest, ∃ restored,
      sslConfigFromBytes out (bytes ++ rest) = some (restored, rest) ∧
        restored.SameTransferred config) ↔
      config.confMaxVersionUseDefault = true ∧ config.confMinVersionUseDefault = true := by
  obtain ⟨bytes, hbytes, hread⟩ := sslConfigFromBytes_toBytes config
  constructor
  · rintro ⟨bytes', hbytes', hrestores⟩
    rw [hbytes] at hbytes'
    cases hbytes'
    obtain ⟨restored, hrestored, hsame⟩ := hrestores config []
    rw [hread] at hrestored
    cases hrestored
    obtain ⟨-, -, hmax, hmin, -, -⟩ := hsame
    exact ⟨hmax.symm, hmin.symm⟩
  · rintro ⟨hmax, hmin⟩
    refine ⟨bytes, hbytes, ?_⟩
    intro out rest
    exact ⟨_, hread out rest, rfl, rfl, hmax.symm, hmin.symm, rfl, rfl⟩

/-- The configuration of a connection on which `SSL_set_max_proto_version` was
    called with TLS 1.2. -/
def pinnedConfig : SslConfig where
  confMaxVersion := 0x0303
  confMinVersion := 0
  confMaxVersionUseDefault := false
  confMinVersionUseDefault := true
  ocspStaplingEnabled := false
  jdk11Workaround := false
  handoff := false
  shedHandshakeConfig := false

/-- A maximum version that was set is taken for the default after a transfer. -/
theorem pinned_version_not_restored : ∃ bytes restored, sslConfigToBytes pinnedConfig = some bytes ∧
      sslConfigFromBytes pinnedConfig bytes = some (restored, []) ∧
      restored.confMaxVersionUseDefault = true ∧ ¬ restored.SameTransferred pinnedConfig :=
  ⟨_, _, rfl, rfl, rfl, by decide⟩

end AwsLc
