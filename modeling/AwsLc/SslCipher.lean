import AwsLc.AeadContext

/-!
# The cipher suites (`ssl_cipher.cc`)

The table of the cipher suites, which is sorted by their identifiers, and what is looked up
in it.
-/

namespace AwsLc

/-! ### Algorithms -/

def SSL_kRSA : UInt32 := 0x00000001
def SSL_kECDHE : UInt32 := 0x00000002
def SSL_kPSK : UInt32 := 0x00000004
def SSL_kGENERIC : UInt32 := 0x00000008

def SSL_aRSA : UInt32 := 0x00000001
def SSL_aECDSA : UInt32 := 0x00000002
def SSL_aPSK : UInt32 := 0x00000004
def SSL_aGENERIC : UInt32 := 0x00000008

def SSL_3DES : UInt32 := 0x00000001
def SSL_AES128 : UInt32 := 0x00000002
def SSL_AES256 : UInt32 := 0x00000004
def SSL_AES128GCM : UInt32 := 0x00000008
def SSL_AES256GCM : UInt32 := 0x00000010
def SSL_eNULL : UInt32 := 0x00000020
def SSL_CHACHA20POLY1305 : UInt32 := 0x00000040

def SSL_SHA1 : UInt32 := 0x00000001
def SSL_AEAD : UInt32 := 0x00000002
def SSL_SHA256 : UInt32 := 0x00000004
def SSL_SHA384 : UInt32 := 0x00000008

def SSL_HANDSHAKE_MAC_DEFAULT : UInt32 := 0x1
def SSL_HANDSHAKE_MAC_SHA256 : UInt32 := 0x2
def SSL_HANDSHAKE_MAC_SHA384 : UInt32 := 0x4

/-! ### The table -/

structure SslCipher where
  name : String
  standardName : String
  /-- the value of the cipher suite, with `0x03000000` -/
  id : UInt32
  algorithmMkey : UInt32
  algorithmAuth : UInt32
  algorithmEnc : UInt32
  algorithmMac : UInt32
  algorithmPrf : UInt32
deriving DecidableEq, Inhabited, Repr

def kCiphers : List SslCipher := [
  ⟨"NULL-SHA", "TLS_RSA_WITH_NULL_SHA", 0x03000002, SSL_kRSA, SSL_aRSA, SSL_eNULL, SSL_SHA1,
    SSL_HANDSHAKE_MAC_DEFAULT⟩,
  ⟨"DES-CBC3-SHA", "TLS_RSA_WITH_3DES_EDE_CBC_SHA", 0x0300000a, SSL_kRSA, SSL_aRSA, SSL_3DES,
    SSL_SHA1, SSL_HANDSHAKE_MAC_DEFAULT⟩,
  ⟨"AES128-SHA", "TLS_RSA_WITH_AES_128_CBC_SHA", 0x0300002f, SSL_kRSA, SSL_aRSA, SSL_AES128,
    SSL_SHA1, SSL_HANDSHAKE_MAC_DEFAULT⟩,
  ⟨"AES256-SHA", "TLS_RSA_WITH_AES_256_CBC_SHA", 0x03000035, SSL_kRSA, SSL_aRSA, SSL_AES256,
    SSL_SHA1, SSL_HANDSHAKE_MAC_DEFAULT⟩,
  ⟨"AES128-SHA256", "TLS_RSA_WITH_AES_128_CBC_SHA256", 0x0300003c, SSL_kRSA, SSL_aRSA,
    SSL_AES128, SSL_SHA256, SSL_HANDSHAKE_MAC_SHA256⟩,
  ⟨"PSK-AES128-CBC-SHA", "TLS_PSK_WITH_AES_128_CBC_SHA", 0x0300008c, SSL_kPSK, SSL_aPSK,
    SSL_AES128, SSL_SHA1, SSL_HANDSHAKE_MAC_DEFAULT⟩,
  ⟨"PSK-AES256-CBC-SHA", "TLS_PSK_WITH_AES_256_CBC_SHA", 0x0300008d, SSL_kPSK, SSL_aPSK,
    SSL_AES256, SSL_SHA1, SSL_HANDSHAKE_MAC_DEFAULT⟩,
  ⟨"AES128-GCM-SHA256", "TLS_RSA_WITH_AES_128_GCM_SHA256", 0x0300009c, SSL_kRSA, SSL_aRSA,
    SSL_AES128GCM, SSL_AEAD, SSL_HANDSHAKE_MAC_SHA256⟩,
  ⟨"AES256-GCM-SHA384", "TLS_RSA_WITH_AES_256_GCM_SHA384", 0x0300009d, SSL_kRSA, SSL_aRSA,
    SSL_AES256GCM, SSL_AEAD, SSL_HANDSHAKE_MAC_SHA384⟩,
  ⟨"TLS_AES_128_GCM_SHA256", "TLS_AES_128_GCM_SHA256", 0x03001301, SSL_kGENERIC, SSL_aGENERIC,
    SSL_AES128GCM, SSL_AEAD, SSL_HANDSHAKE_MAC_SHA256⟩,
  ⟨"TLS_AES_256_GCM_SHA384", "TLS_AES_256_GCM_SHA384", 0x03001302, SSL_kGENERIC, SSL_aGENERIC,
    SSL_AES256GCM, SSL_AEAD, SSL_HANDSHAKE_MAC_SHA384⟩,
  ⟨"TLS_CHACHA20_POLY1305_SHA256", "TLS_CHACHA20_POLY1305_SHA256", 0x03001303, SSL_kGENERIC,
    SSL_aGENERIC, SSL_CHACHA20POLY1305, SSL_AEAD, SSL_HANDSHAKE_MAC_SHA256⟩,
  ⟨"ECDHE-ECDSA-AES128-SHA", "TLS_ECDHE_ECDSA_WITH_AES_128_CBC_SHA", 0x0300c009, SSL_kECDHE,
    SSL_aECDSA, SSL_AES128, SSL_SHA1, SSL_HANDSHAKE_MAC_DEFAULT⟩,
  ⟨"ECDHE-ECDSA-AES256-SHA", "TLS_ECDHE_ECDSA_WITH_AES_256_CBC_SHA", 0x0300c00a, SSL_kECDHE,
    SSL_aECDSA, SSL_AES256, SSL_SHA1, SSL_HANDSHAKE_MAC_DEFAULT⟩,
  ⟨"ECDHE-RSA-AES128-SHA", "TLS_ECDHE_RSA_WITH_AES_128_CBC_SHA", 0x0300c013, SSL_kECDHE,
    SSL_aRSA, SSL_AES128, SSL_SHA1, SSL_HANDSHAKE_MAC_DEFAULT⟩,
  ⟨"ECDHE-RSA-AES256-SHA", "TLS_ECDHE_RSA_WITH_AES_256_CBC_SHA", 0x0300c014, SSL_kECDHE,
    SSL_aRSA, SSL_AES256, SSL_SHA1, SSL_HANDSHAKE_MAC_DEFAULT⟩,
  ⟨"ECDHE-RSA-AES128-SHA256", "TLS_ECDHE_RSA_WITH_AES_128_CBC_SHA256", 0x0300c027, SSL_kECDHE,
    SSL_aRSA, SSL_AES128, SSL_SHA256, SSL_HANDSHAKE_MAC_SHA256⟩,
  ⟨"ECDHE-RSA-AES256-SHA384", "TLS_ECDHE_RSA_WITH_AES_256_CBC_SHA384", 0x0300c028, SSL_kECDHE,
    SSL_aRSA, SSL_AES256, SSL_SHA384, SSL_HANDSHAKE_MAC_SHA384⟩,
  ⟨"ECDHE-ECDSA-AES128-GCM-SHA256", "TLS_ECDHE_ECDSA_WITH_AES_128_GCM_SHA256", 0x0300c02b,
    SSL_kECDHE, SSL_aECDSA, SSL_AES128GCM, SSL_AEAD, SSL_HANDSHAKE_MAC_SHA256⟩,
  ⟨"ECDHE-ECDSA-AES256-GCM-SHA384", "TLS_ECDHE_ECDSA_WITH_AES_256_GCM_SHA384", 0x0300c02c,
    SSL_kECDHE, SSL_aECDSA, SSL_AES256GCM, SSL_AEAD, SSL_HANDSHAKE_MAC_SHA384⟩,
  ⟨"ECDHE-RSA-AES128-GCM-SHA256", "TLS_ECDHE_RSA_WITH_AES_128_GCM_SHA256", 0x0300c02f,
    SSL_kECDHE, SSL_aRSA, SSL_AES128GCM, SSL_AEAD, SSL_HANDSHAKE_MAC_SHA256⟩,
  ⟨"ECDHE-RSA-AES256-GCM-SHA384", "TLS_ECDHE_RSA_WITH_AES_256_GCM_SHA384", 0x0300c030,
    SSL_kECDHE, SSL_aRSA, SSL_AES256GCM, SSL_AEAD, SSL_HANDSHAKE_MAC_SHA384⟩,
  ⟨"ECDHE-PSK-AES128-CBC-SHA", "TLS_ECDHE_PSK_WITH_AES_128_CBC_SHA", 0x0300c035, SSL_kECDHE,
    SSL_aPSK, SSL_AES128, SSL_SHA1, SSL_HANDSHAKE_MAC_DEFAULT⟩,
  ⟨"ECDHE-PSK-AES256-CBC-SHA", "TLS_ECDHE_PSK_WITH_AES_256_CBC_SHA", 0x0300c036, SSL_kECDHE,
    SSL_aPSK, SSL_AES256, SSL_SHA1, SSL_HANDSHAKE_MAC_DEFAULT⟩,
  ⟨"ECDHE-RSA-CHACHA20-POLY1305", "TLS_ECDHE_RSA_WITH_CHACHA20_POLY1305_SHA256", 0x0300cca8,
    SSL_kECDHE, SSL_aRSA, SSL_CHACHA20POLY1305, SSL_AEAD, SSL_HANDSHAKE_MAC_SHA256⟩,
  ⟨"ECDHE-ECDSA-CHACHA20-POLY1305", "TLS_ECDHE_ECDSA_WITH_CHACHA20_POLY1305_SHA256", 0x0300cca9,
    SSL_kECDHE, SSL_aECDSA, SSL_CHACHA20POLY1305, SSL_AEAD, SSL_HANDSHAKE_MAC_SHA256⟩,
  ⟨"ECDHE-PSK-CHACHA20-POLY1305", "TLS_ECDHE_PSK_WITH_CHACHA20_POLY1305_SHA256", 0x0300ccac,
    SSL_kECDHE, SSL_aPSK, SSL_CHACHA20POLY1305, SSL_AEAD, SSL_HANDSHAKE_MAC_SHA256⟩]

/-- The table is sorted, as `bsearch` needs it. -/
theorem kCiphers_sorted : kCiphers.Pairwise fun a b => a.id < b.id := by decide

/-- `SSL_get_cipher_by_value`.  In a sorted table `bsearch` finds the entry if there is one. -/
def sslGetCipherByValue (value : UInt16) : Option SslCipher :=
  kCiphers.find? fun cipher => cipher.id = 0x03000000 ||| value.toUInt32

theorem find?_of_sorted {ciphers : List SslCipher} {cipher : SslCipher}
    (hsorted : ciphers.Pairwise fun a b => a.id < b.id) (h : cipher ∈ ciphers) :
    ciphers.find? (fun other => other.id = cipher.id) = some cipher := by
  induction ciphers with
  | nil => cases h
  | cons first ciphers ih =>
    rw [List.pairwise_cons] at hsorted
    rcases List.mem_cons.mp h with rfl | hrest
    · exact List.find?_cons_of_pos (decide_eq_true rfl)
    · have hne : first.id ≠ cipher.id := UInt32.ne_of_lt (hsorted.1 cipher hrest)
      rw [List.find?_cons_of_neg (by rw [decide_eq_true_eq]; exact hne)]
      exact ih hsorted.2 hrest

theorem sslGetCipherByValue_id {cipher : SslCipher} (h : cipher ∈ kCiphers) :
    sslGetCipherByValue (cipher.id &&& 0xffff).toUInt16 = some cipher := by
  have hid : ∀ cipher ∈ kCiphers,
      0x03000000 ||| ((cipher.id &&& 0xffff).toUInt16).toUInt32 = cipher.id := by decide
  rw [sslGetCipherByValue, hid cipher h]
  exact find?_of_sorted kCiphers_sorted h

def sslCipherGetBits (cipher : SslCipher) : Nat :=
  if cipher.algorithmEnc = SSL_AES128 ∨ cipher.algorithmEnc = SSL_AES128GCM then 128
  else if cipher.algorithmEnc = SSL_AES256 ∨ cipher.algorithmEnc = SSL_AES256GCM ∨
      cipher.algorithmEnc = SSL_CHACHA20POLY1305 then 256
  else if cipher.algorithmEnc = SSL_3DES then 112
  else 0

def SSL3_VERSION : UInt16 := 0x0300

def sslCipherGetMinVersion (cipher : SslCipher) : UInt16 :=
  if cipher.algorithmMkey = SSL_kGENERIC ∨ cipher.algorithmAuth = SSL_aGENERIC then TLS1_3_VERSION
  else if cipher.algorithmPrf ≠ SSL_HANDSHAKE_MAC_DEFAULT then TLS1_2_VERSION
  else SSL3_VERSION

end AwsLc
