import AwsLc.ByteString

/-!
# RSA-PSS encoding

`RSA_padding_add_PKCS1_PSS_mgf1` encodes the hash of a message and a salt: a data block of zeros, a
one and the salt is masked by the output of `PKCS1_MGF1`, and followed by the hash that the mask is
generated from.  `rsa_verify_PKCS1_PSS_mgf1` takes the encoding apart.
-/

namespace AwsLc

open BigEndian List

/-! ### The encoding -/

def RSA_PSS_SALTLEN_DIGEST : Int := -1
def RSA_PSS_SALTLEN_AUTO : Int := -2

structure EvpMd where
  size : Nat
  digest : Bytes → Bytes
  length_digest : ∀ data, (digest data).length = size
  size_pos : 0 < size
  size_le : size ≤ EVP_MAX_MD_SIZE

def BN_BITS2 : Nat := 64

def BN_MAX_WORDS : Nat := INT_MAX / (4 * BN_BITS2)

structure RsaModulus where
  bits : Nat
  bits_le : bits ≤ BN_MAX_WORDS * BN_BITS2

open RsaModulus

variable (rsa : RsaModulus)

/-- `RSA_size`. -/
def RsaModulus.size : Nat := (rsa.bits + 7) / 8

/-- `(BN_num_bits(rsa->n) - 1) & 0x7`. -/
@[irreducible]
def RsaModulus.msBits : Nat := (rsa.bits + 2 ^ 32 - 1) % 2 ^ 32 % 8

/-- The leading zero, which `if (MSBits == 0)` sets or skips. -/
def RsaModulus.lead : Bytes := if rsa.msBits = 0 then [0] else []

/-- `emLen`, without the leading zero. -/
def RsaModulus.emLen : Nat :=
  if rsa.msBits = 0 then rsa.size - 1 else rsa.size

def mgf1Loop (md : EvpMd) (seed : Bytes) (i : UInt32) (len : Nat) : Bytes :=
  if len = 0 then []
  else
    let counter := [(i >>> 24).toUInt8, (i >>> 16).toUInt8, (i >>> 8).toUInt8, i.toUInt8]
    let digest := md.digest (seed ++ counter)
    if md.size ≤ len then digest ++ mgf1Loop md seed (i + 1) (len - md.size)
    else digest.take len
termination_by len
decreasing_by
  have hpos := md.size_pos
  omega

def pkcs1Mgf1 (len : Nat) (seed : Bytes) (md : EvpMd) : Bytes := mgf1Loop md seed 0 len

def kPSSZeroes : Bytes := List.replicate 8 0

def pssHash (md : EvpMd) (mHash : FixedBytes md.size) (salt : Bytes) : Bytes :=
  md.digest (kPSSZeroes ++ mHash.bytes ++ salt)

def rsaPssMaxSaltlen (hLen : Nat) : Int :=
  let emLen := if rsa.bits % 8 = 1 then rsa.size - 1 else rsa.size
  if emLen < hLen ∨ emLen - hLen < 2 then -1
  else if emLen - hLen - 2 > INT_MAX then -1
  else (emLen - hLen - 2 : Nat)

def maskTop (msBits : Nat) (bytes : Bytes) : Bytes :=
  if msBits ≠ 0 then bytes.modify 0 (· &&& (0xff >>> UInt8.ofNat (8 - msBits))) else bytes

def pssEncode (msBits emLen : Nat) (md mgf1Hash : EvpMd) (mHash : FixedBytes md.size)
    (salt : Bytes) : Bytes :=
  let maskedDBLen := emLen - md.size - 1
  let h := pssHash md mHash salt
  let em := pkcs1Mgf1 maskedDBLen h mgf1Hash
  let em := xorAt em (emLen - salt.length - md.size - 2) (1 :: salt)
  maskTop msBits em ++ h ++ [0xbc]

def pssSaltLength (hLen : Nat) (maxSaltlen sLenRequested : Int) : Option Nat :=
  if sLenRequested = RSA_PSS_SALTLEN_DIGEST then some hLen
  else if sLenRequested = RSA_PSS_SALTLEN_AUTO then some maxSaltlen.toNat
  else if sLenRequested < 0 then none
  else some sLenRequested.toNat

def rsaPaddingAddPkcs1PssMgf1 (md : EvpMd) (mgf1Hash : Option EvpMd)
    (mHash : FixedBytes md.size) (sLenRequested : Int) (rand : (len : Nat) → FixedBytes len) :
    Option Bytes :=
  if rsa.bits = 0 then none
  else
    let maxSaltlen := rsaPssMaxSaltlen rsa md.size
    if maxSaltlen < 0 then none
    else do
      let sLen ← pssSaltLength md.size maxSaltlen sLenRequested
      if maxSaltlen < sLen then none
      else
        some (rsa.lead ++
          pssEncode rsa.msBits rsa.emLen md (mgf1Hash.getD md) mHash (rand sLen).bytes)

/-! ### Verification -/

def pssSaltStart : Bytes → Nat
  | byte :: next :: rest => if byte = 0 then pssSaltStart (next :: rest) + 1 else 0
  | _ => 0

/-- The checks of `rsa_verify_PKCS1_PSS_mgf1` on the `emLen` bytes of the encoding. -/
def pssVerify (msBits emLen : Nat) (md mgf1Hash : EvpMd) (mHash : FixedBytes md.size) (em : Bytes)
    (sLen minSLen : Int) : Bool :=
  if emLen < md.size + 2 ∨ (0 ≤ sLen ∧ emLen < md.size + sLen.toNat + 2) then false
  else if em.getD (emLen - 1) 0 ≠ 0xbc then false
  else
    let maskedDBLen := emLen - md.size - 1
    let h := (em.drop maskedDBLen).take md.size
    let db := pkcs1Mgf1 maskedDBLen h mgf1Hash
    let db := maskTop msBits (db.zipWith (· ^^^ ·) em)
    let saltStart := pssSaltStart db
    if db.getD saltStart 0 ≠ 1 then false
    else
      let recoveredSLen := maskedDBLen - (saltStart + 1)
      if 0 ≤ sLen ∧ recoveredSLen ≠ sLen.toNat then false
      else if 0 ≤ minSLen ∧ recoveredSLen < minSLen.toNat then false
      else pssHash md mHash (db.drop (saltStart + 1)) == h

/-- The salt length that is asked for; `RSA_PSS_SALTLEN_AUTO` is kept. -/
def pssExpectedSaltLength (hLen : Nat) (sLen : Int) : Option Int :=
  if sLen = RSA_PSS_SALTLEN_DIGEST then some hLen
  else if sLen = RSA_PSS_SALTLEN_AUTO then some RSA_PSS_SALTLEN_AUTO
  else if sLen < RSA_PSS_SALTLEN_AUTO then none
  else some sLen

def rsaVerifyPkcs1PssMgf1 (md : EvpMd) (mgf1Hash : Option EvpMd)
    (mHash : FixedBytes md.size) (em : Bytes) (sLen minSLen : Int) : Bool :=
  match pssExpectedSaltLength md.size sLen with
  | none => false
  | some sLen =>
    if (em.headD 0).toNat &&& (0xff <<< rsa.msBits) ≠ 0 then false
    else
      pssVerify rsa.msBits rsa.emLen md (mgf1Hash.getD md) mHash (em.drop rsa.lead.length) sLen
        minSLen

theorem length_mgf1Loop (md : EvpMd) (seed : Bytes) (i : UInt32) (len : Nat) :
    (mgf1Loop md seed i len).length = len := by
  fun_induction mgf1Loop md seed i len with
  | case1 => rfl
  | case2 i len hlen counter digest hle ih =>
    rw [length_append, ih, md.length_digest]
    omega
  | case3 i len hlen counter digest hlt =>
    rw [length_take, md.length_digest]
    omega

theorem length_pkcs1Mgf1 (len : Nat) (seed : Bytes) (md : EvpMd) :
    (pkcs1Mgf1 len seed md).length = len := length_mgf1Loop md seed 0 len

theorem topBits_iff (byte : UInt8) {k : Nat} (hk : k < 8) :
    byte.toNat &&& (0xff <<< k) = 0 ↔ byte.toNat < 2 ^ k := by
  revert byte
  have hall : ∀ k : Fin 8, ∀ n : Fin 256, ((UInt8.ofNat n).toNat &&& (0xff <<< k.val) = 0 ↔
      (UInt8.ofNat n).toNat < 2 ^ k.val) := by decide +kernel
  exact forall_byte (hall ⟨k, hk⟩)

theorem masked_iff (byte : UInt8) {k : Nat} (hk : k < 8) (hpos : k ≠ 0) :
    byte &&& (0xff >>> UInt8.ofNat (8 - k)) = byte ↔ byte.toNat < 2 ^ k := by
  revert byte
  have hall : ∀ k : Fin 8, k.val ≠ 0 → ∀ n : Fin 256,
      (UInt8.ofNat n &&& (0xff >>> UInt8.ofNat (8 - k.val)) = UInt8.ofNat n ↔
        (UInt8.ofNat n).toNat < 2 ^ k.val) := by decide +kernel
  exact forall_byte (hall ⟨k, hk⟩ hpos)

/-- A byte that is combined with another one twice, under a mask. -/
theorem mask_xor (x d m : UInt8) : (x ^^^ ((x ^^^ d) &&& m)) &&& m = d &&& m := by
  apply UInt8.toBitVec_inj.mp
  apply BitVec.eq_of_getElem_eq
  intro i hi
  simp only [UInt8.toBitVec_and, UInt8.toBitVec_xor, BitVec.getElem_and, BitVec.getElem_xor]
  cases x.toBitVec[i] <;> cases d.toBitVec[i] <;> cases m.toBitVec[i] <;> rfl

theorem length_maskTop (k : Nat) (bytes : Bytes) : (maskTop k bytes).length = bytes.length := by
  unfold maskTop
  split
  · exact length_modify _ _ _
  · rfl

def TopClear (k : Nat) (bytes : Bytes) : Prop := k ≠ 0 → (bytes.headD 0).toNat < 2 ^ k

theorem topClear_maskTop {k : Nat} (hk : k < 8) (bytes : Bytes) : TopClear k (maskTop k bytes) := by
  intro hpos
  unfold maskTop
  rw [if_pos hpos]
  cases bytes with
  | nil => exact Nat.two_pow_pos k
  | cons byte bytes =>
    rw [modify_zero_cons, headD_cons]
    refine (masked_iff _ hk hpos).mp ?_
    rw [UInt8.and_assoc, UInt8.and_self]

theorem unmask {k : Nat} (hk : k < 8) {mask db : Bytes} (hlength : db.length = mask.length)
    (hdb : TopClear k db) : maskTop k (xorBytes mask (maskTop k (xorBytes mask db))) = db := by
  by_cases hpos : k = 0
  · unfold maskTop
    rw [if_neg (not_not.mpr hpos), if_neg (not_not.mpr hpos)]
    exact xorBytes_xorBytes hlength.le
  · unfold maskTop
    rw [if_pos hpos, if_pos hpos]
    rcases mask with _ | ⟨x, mask⟩
    · rw [eq_nil_of_length_eq_zero hlength]
      rfl
    rcases db with _ | ⟨d, db⟩
    · cases hlength
    have hrest : xorBytes mask (xorBytes mask db) = db :=
      xorBytes_xorBytes (Nat.succ.inj hlength).le
    simp only [xorBytes, zipWith_cons_cons, modify_zero_cons, mask_xor]
    rw [(masked_iff d hk hpos).mpr (hdb hpos)]
    exact congrArg (d :: ·) hrest

variable (zeros : Nat)
variable (salt : Bytes)

def dataBlock : Bytes := List.replicate zeros 0 ++ 1 :: salt

theorem length_dataBlock : (dataBlock zeros salt).length = zeros + salt.length + 1 := by
  rw [dataBlock, length_append, length_replicate, length_cons]
  rfl

theorem topClear_dataBlock (k zeros : Nat) (salt : Bytes) : TopClear k (dataBlock zeros salt) := by
  intro hpos
  have htwo := Nat.one_lt_two_pow hpos
  cases zeros with
  | zero => exact htwo
  | succ zeros => exact Nat.two_pow_pos k

theorem pssSaltStart_dataBlock : pssSaltStart (dataBlock zeros salt) = zeros := by
  induction zeros with
  | zero => cases salt <;> rfl
  | succ zeros ih =>
    have hcons : ∃ byte rest, dataBlock zeros salt = byte :: rest := by
      cases zeros with
      | zero => exact ⟨1, salt, rfl⟩
      | succ zeros => exact ⟨0, dataBlock zeros salt, rfl⟩
    obtain ⟨byte, rest, hrest⟩ := hcons
    have hblock : dataBlock (zeros + 1) salt = 0 :: byte :: rest := congrArg (0 :: ·) hrest
    rw [hblock, pssSaltStart, if_pos rfl, ← hrest, ih]

theorem dataBlock_of_saltStart {db : Bytes} (h : db.getD (pssSaltStart db) 0 = 1) :
    db = dataBlock (pssSaltStart db) (db.drop (pssSaltStart db + 1)) := by
  induction db with
  | nil => cases h
  | cons byte rest ih =>
    cases rest with
    | nil =>
      have hone : byte = 1 := h
      rw [hone]
      rfl
    | cons next rest =>
      rw [pssSaltStart] at h ⊢
      by_cases hzero : byte = 0
      · rw [if_pos hzero] at h ⊢
        rw [drop_succ_cons, hzero]
        exact congrArg (0 :: ·) (ih h)
      · rw [if_neg hzero] at h ⊢
        have hone : byte = 1 := h
        rw [hone]
        rfl

theorem getD_dataBlock : (dataBlock zeros salt).getD zeros 0 = 1 := by
  have hzeros : (List.replicate zeros (0 : UInt8)).length = zeros := length_replicate
  rw [getD_eq_getElem?_getD, dataBlock, List.getElem?_append_right hzeros.le, hzeros,
    Nat.sub_self]
  rfl

theorem drop_dataBlock : (dataBlock zeros salt).drop (zeros + 1) = salt := by
  have hzeros : (List.replicate zeros (0 : UInt8)).length = zeros := length_replicate
  rw [dataBlock, ← drop_drop, drop_left' hzeros]
  rfl

section

variable {k emLen : Nat} {md mgf1Hash : EvpMd} {mHash : FixedBytes md.size}

theorem length_pssHash : (pssHash md mHash salt).length = md.size :=
  md.length_digest _

theorem length_maskedBlock (h : Bytes) {salt : Bytes} (hlen : md.size + salt.length + 2 ≤ emLen) :
    (maskTop k (xorBytes (pkcs1Mgf1 (emLen - md.size - 1) h mgf1Hash)
      (dataBlock (emLen - salt.length - md.size - 2) salt))).length = emLen - md.size - 1 := by
  rw [length_maskTop, xorBytes, length_zipWith, length_pkcs1Mgf1, length_dataBlock]
  omega

theorem pssEncode_eq {salt : Bytes} (hlen : md.size + salt.length + 2 ≤ emLen) :
    pssEncode k emLen md mgf1Hash mHash salt =
      maskTop k (xorBytes (pkcs1Mgf1 (emLen - md.size - 1) (pssHash md mHash salt) mgf1Hash)
        (dataBlock (emLen - salt.length - md.size - 2) salt)) ++
      (pssHash md mHash salt ++ [0xbc]) := by
  unfold pssEncode
  dsimp only
  rw [append_assoc]
  congr 2
  generalize hmask : pkcs1Mgf1 (emLen - md.size - 1) (pssHash md mHash salt) mgf1Hash = mask
  have hlength : mask.length = emLen - md.size - 1 := by
    rw [← hmask, length_pkcs1Mgf1]
  generalize hp : emLen - salt.length - md.size - 2 = p
  have hbefore : (mask.take p).length = p := by
    rw [length_take]
    omega
  have hafter : (1 :: salt).length = (mask.drop p).length := by
    rw [length_drop, length_cons]
    omega
  have hxor := xorAt_middle (mask.take p) (mask.drop p) [] (1 :: salt) hafter
  rw [append_nil, append_nil, take_append_drop, hbefore] at hxor
  have hzeros := xorBytes_zeros hbefore
  rw [hxor]
  conv_rhs => rw [← take_append_drop p mask]
  rw [dataBlock, xorBytes_append (by rw [hbefore, length_replicate]), hzeros]

/-- What the checks say about the parts of an encoding. -/
theorem pssVerify_iff {e h : Bytes} {last : UInt8} {sLen minSLen : Int}
    (hemLen : md.size + 2 ≤ emLen) (he : e.length = emLen - md.size - 1) (hh : h.length = md.size) :
    pssVerify k emLen md mgf1Hash mHash (e ++ (h ++ [last])) sLen minSLen = true ↔
      last = 0xbc ∧ ∃ salt : Bytes, md.size + salt.length + 2 ≤ emLen ∧
        maskTop k (xorBytes (pkcs1Mgf1 (emLen - md.size - 1) h mgf1Hash) e) =
          dataBlock (emLen - salt.length - md.size - 2) salt ∧
        (0 ≤ sLen → salt.length = sLen.toNat) ∧ minSLen ≤ salt.length ∧
        pssHash md mHash salt = h := by
  have hlast : (e ++ (h ++ [last])).getD (emLen - 1) 0 = last := by
    rw [getD_eq_getElem?_getD, List.getElem?_append_right (by omega),
      List.getElem?_append_right (by omega), he, hh]
    have hzero : emLen - 1 - (emLen - md.size - 1) - md.size = 0 := by omega
    rw [hzero]
    rfl
  have hhash : ((e ++ (h ++ [last])).drop (emLen - md.size - 1)).take md.size = h := by
    rw [drop_left' he, take_left' hh]
  generalize hmask : pkcs1Mgf1 (emLen - md.size - 1) h mgf1Hash = mask
  have hmaskLength : mask.length = emLen - md.size - 1 := by
    rw [← hmask, length_pkcs1Mgf1]
  have hxor : mask.zipWith (· ^^^ ·) (e ++ (h ++ [last])) = xorBytes mask e := by
    have happend := xorBytes_append (hmaskLength.trans he.symm) [] (h ++ [last])
    rw [append_nil] at happend
    exact happend.trans (append_nil _)
  have hdbLength : (maskTop k (xorBytes mask e)).length = emLen - md.size - 1 := by
    rw [length_maskTop, xorBytes, length_zipWith, hmaskLength, he, Nat.min_self]
  unfold pssVerify
  dsimp only
  rw [hlast, hhash, hmask, hxor]
  generalize maskTop k (xorBytes mask e) = db at hdbLength
  constructor
  · intro hverify
    split at hverify
    · cases hverify
    next hsize =>
    split at hverify
    · cases hverify
    next hbc =>
    split at hverify
    · cases hverify
    next hone =>
    split at hverify
    · cases hverify
    next hsLen =>
    split at hverify
    · cases hverify
    next hmin =>
    have hblock := dataBlock_of_saltStart (not_not.mp hone)
    have hlength := congrArg List.length hblock
    rw [length_dataBlock, hdbLength] at hlength
    refine ⟨not_not.mp hbc, db.drop (pssSaltStart db + 1), by omega, ?_, ?_, ?_,
      eq_of_beq hverify⟩
    · have hzeros : emLen - (db.drop (pssSaltStart db + 1)).length - md.size - 2 =
          pssSaltStart db := by omega
      rw [hzeros]
      exact hblock
    · intro hnonneg
      omega
    · omega
  · rintro ⟨rfl, salt, hfits, rfl, hsLen, hmin, rfl⟩
    rw [length_dataBlock] at hdbLength
    rw [pssSaltStart_dataBlock, getD_dataBlock, drop_dataBlock]
    rw [if_neg, if_neg (not_not.mpr rfl), if_neg (not_not.mpr rfl), if_neg, if_neg]
    · exact beq_self_eq_true _
    · omega
    · omega
    · omega

/-- **The checks accept exactly the encodings**, for bytes without unused bits. -/
theorem pssVerify_exact (hk : k < 8) {em : Bytes} (hem : em.length = emLen) (hclear : TopClear k em)
    {sLen minSLen : Int} : pssVerify k emLen md mgf1Hash mHash em sLen minSLen = true ↔
      ∃ salt : Bytes, md.size + salt.length + 2 ≤ emLen ∧
        (0 ≤ sLen → salt.length = sLen.toNat) ∧ minSLen ≤ salt.length ∧
        em = pssEncode k emLen md mgf1Hash mHash salt := by
  by_cases hemLen : md.size + 2 ≤ emLen
  swap
  · unfold pssVerify
    rw [if_pos (Or.inl (by omega))]
    refine ⟨nofun, ?_⟩
    rintro ⟨salt, hfits, -⟩
    omega
  obtain ⟨e, h, last, rfl, he, hh⟩ : ∃ e h last, em = e ++ (h ++ [last]) ∧
      e.length = emLen - md.size - 1 ∧ h.length = md.size := by
    have hrest : (em.drop (emLen - 1)).length = 1 := by
      rw [length_drop]
      omega
    obtain ⟨last, hlast⟩ := length_eq_one_iff.mp hrest
    refine ⟨em.take (emLen - md.size - 1), (em.drop (emLen - md.size - 1)).take md.size, last,
      ?_, ?_, ?_⟩
    · have hnext : emLen - md.size - 1 + md.size = emLen - 1 := by omega
      rw [← hlast, ← hnext, ← drop_drop, take_append_drop, take_append_drop]
    · rw [length_take]
      omega
    · rw [length_take, length_drop]
      omega
  have hclearE : TopClear k e := by
    intro hpos
    have hhead := hclear hpos
    rcases e with _ | ⟨byte, e⟩
    · exact Nat.two_pow_pos k
    · exact hhead
  rw [pssVerify_iff hemLen he hh]
  constructor
  · rintro ⟨rfl, salt, hfits, hblock, hsLen, hmin, rfl⟩
    refine ⟨salt, hfits, hsLen, hmin, ?_⟩
    rw [pssEncode_eq hfits, ← hblock, unmask hk _ hclearE]
    rw [length_pkcs1Mgf1, he]
  · rintro ⟨salt, hfits, hsLen, hmin, hencode⟩
    rw [pssEncode_eq hfits] at hencode
    have hlength : (dataBlock (emLen - salt.length - md.size - 2) salt).length =
        (pkcs1Mgf1 (emLen - md.size - 1) (pssHash md mHash salt) mgf1Hash).length := by
      rw [length_dataBlock, length_pkcs1Mgf1]
      omega
    obtain ⟨rfl, hrest⟩ :=
      List.append_inj hencode (he.trans (length_maskedBlock _ hfits).symm)
    obtain ⟨rfl, hlast⟩ := List.append_inj hrest (hh.trans (length_pssHash salt).symm)
    refine ⟨singleton_inj.mp hlast, salt, hfits, ?_, hsLen, hmin, rfl⟩
    exact unmask hk hlength (topClear_dataBlock _ _ _)

theorem pssEncode_clear (mgf1Hash : EvpMd) (mHash : FixedBytes md.size) (hk : k < 8) {salt : Bytes}
    (hfits : md.size + salt.length + 2 ≤ emLen) :
    (pssEncode k emLen md mgf1Hash mHash salt).length = emLen ∧
      TopClear k (pssEncode k emLen md mgf1Hash mHash salt) := by
  rw [pssEncode_eq hfits]
  generalize hmasked : maskTop k (xorBytes
    (pkcs1Mgf1 (emLen - md.size - 1) (pssHash md mHash salt) mgf1Hash)
    (dataBlock (emLen - salt.length - md.size - 2) salt)) = masked
  have hlength : masked.length = emLen - md.size - 1 := by
    rw [← hmasked, length_maskedBlock _ hfits]
  constructor
  · rw [length_append, length_append, length_pssHash, length_singleton, hlength]
    omega
  · intro hpos
    have hhead : TopClear k masked := hmasked ▸ topClear_maskTop hk _
    specialize hhead hpos
    rcases masked with _ | ⟨byte, masked⟩
    · rw [length_nil] at hlength
      omega
    · exact hhead

end

/-! ### The functions -/

namespace RsaModulus

variable (rsa : RsaModulus)

theorem bits_lt : rsa.bits < 2 ^ 30 := Nat.lt_of_le_of_lt rsa.bits_le (by decide)

theorem msBits_lt : rsa.msBits < 8 := by
  unfold msBits
  omega

theorem msBits_eq (hpos : 0 < rsa.bits) : rsa.msBits = (rsa.bits - 1) % 8 := by
  unfold msBits
  omega

theorem length_lead (hpos : 0 < rsa.bits) : rsa.lead.length + rsa.emLen = rsa.size := by
  unfold lead emLen
  split
  · have hsize : 0 < rsa.size := by
      unfold size
      omega
    rw [length_singleton]
    omega
  · exact Nat.zero_add _

theorem bits_eq (hpos : 0 < rsa.bits) :
    rsa.bits - 1 = if rsa.msBits = 0 then 8 * rsa.emLen else 8 * (rsa.emLen - 1) + rsa.msBits := by
  have hms := rsa.msBits_eq hpos
  unfold emLen
  split
  · unfold size
    omega
  · unfold size
    omega

end RsaModulus

theorem rsaPssMaxSaltlen_eq (rsa : RsaModulus) (hpos : 0 < rsa.bits) (hLen : Nat) :
    rsaPssMaxSaltlen rsa hLen =
      if hLen + 2 ≤ rsa.emLen then ((rsa.emLen - hLen - 2 : Nat) : Int) else -1 := by
  have hms := rsa.msBits_eq hpos
  have hlt := rsa.bits_lt
  have hemLen : (if rsa.bits % 8 = 1 then rsa.size - 1 else rsa.size) = rsa.emLen := by
    unfold emLen
    by_cases hone : rsa.bits % 8 = 1
    · rw [if_pos hone, if_pos (by omega)]
    · rw [if_neg hone, if_neg (by omega)]
  have hmax : rsa.emLen ≤ INT_MAX := by
    have hsize : rsa.size ≤ INT_MAX := by
      unfold size INT_MAX
      omega
    unfold emLen
    split <;> omega
  unfold rsaPssMaxSaltlen
  dsimp only
  rw [hemLen]
  by_cases hfits : hLen + 2 ≤ rsa.emLen
  · rw [if_neg (by omega), if_neg (by omega), if_pos hfits]
  · rw [if_pos (by omega), if_neg hfits]

section

variable {rsa : RsaModulus} {md : EvpMd} {mgf1Hash : Option EvpMd} {mHash : FixedBytes md.size}

abbrev pssEncoding (rsa : RsaModulus) (md : EvpMd) (mgf1Hash : Option EvpMd)
    (mHash : FixedBytes md.size) (salt : Bytes) : Bytes :=
  rsa.lead ++ pssEncode rsa.msBits rsa.emLen md (mgf1Hash.getD md) mHash salt

theorem rsaPaddingAdd_eq_some {sLenRequested : Int} {rand : (len : Nat) → FixedBytes len}
    {em : Bytes} : rsaPaddingAddPkcs1PssMgf1 rsa md mgf1Hash mHash sLenRequested rand = some em ↔
      0 < rsa.bits ∧ ∃ sLen, pssSaltLength md.size (rsaPssMaxSaltlen rsa md.size) sLenRequested =
        some sLen ∧ md.size + sLen + 2 ≤ rsa.emLen ∧
        em = pssEncoding rsa md mgf1Hash mHash (rand sLen).bytes := by
  unfold rsaPaddingAddPkcs1PssMgf1
  by_cases hpos : rsa.bits = 0
  · rw [if_pos hpos]
    exact ⟨nofun, fun h => by omega⟩
  have hpos : 0 < rsa.bits := by omega
  rw [if_neg (by omega)]
  dsimp only
  generalize hlength : pssSaltLength md.size (rsaPssMaxSaltlen rsa md.size) sLenRequested = length
  rw [rsaPssMaxSaltlen_eq rsa hpos]
  by_cases hfits : md.size + 2 ≤ rsa.emLen
  · rw [if_pos hfits, if_neg (by omega)]
    cases length with
    | none =>
      refine ⟨nofun, ?_⟩
      rintro ⟨-, sLen, hnone, -⟩
      cases hnone
    | some sLen =>
      rw [Option.bind_eq_bind, Option.bind_some]
      by_cases hlong : md.size + sLen + 2 ≤ rsa.emLen
      · rw [if_neg (by omega), Option.some_inj]
        constructor
        · intro h
          exact ⟨hpos, sLen, rfl, hlong, h.symm⟩
        · rintro ⟨-, sLen', hsome, -, h⟩
          rw [Option.some_inj.mp hsome]
          exact h.symm
      · rw [if_pos (by omega)]
        refine ⟨nofun, ?_⟩
        rintro ⟨-, sLen', hsome, hfits', -⟩
        rw [Option.some_inj.mp hsome] at hlong
        exact absurd hfits' hlong
  · rw [if_neg hfits, if_pos (by decide)]
    refine ⟨nofun, ?_⟩
    rintro ⟨-, sLen, -, hlong, -⟩
    omega

theorem rsaVerify_iff {em : Bytes} (hem : em.length = rsa.size) {sLen expected minSLen : Int}
    (hexpected : pssExpectedSaltLength md.size sLen = some expected) :
    rsaVerifyPkcs1PssMgf1 rsa md mgf1Hash mHash em sLen minSLen = true ↔
      0 < rsa.bits ∧ ∃ salt : Bytes, md.size + salt.length + 2 ≤ rsa.emLen ∧
        (0 ≤ expected → salt.length = expected.toNat) ∧ minSLen ≤ salt.length ∧
        em = pssEncoding rsa md mgf1Hash mHash salt := by
  have hms := rsa.msBits_lt
  unfold rsaVerifyPkcs1PssMgf1
  rw [hexpected]
  dsimp only
  by_cases hpos : 0 < rsa.bits
  swap
  · have hbits : rsa.bits = 0 := by omega
    have hemLen : rsa.emLen = 0 := by
      unfold emLen size
      rw [hbits]
      split <;> rfl
    refine ⟨fun h => ?_, fun h => absurd h.1 hpos⟩
    rw [hemLen, pssVerify, if_pos (Or.inl (by omega)), ite_self] at h
    cases h
  have hlength := rsa.length_lead hpos
  -- the checks of the first byte, for the leading zero and for the unused bits
  have hfirst : em.length = rsa.size → ((em.headD 0).toNat &&& (0xff <<< rsa.msBits) = 0 ↔
      ∃ rest, em = rsa.lead ++ rest ∧ TopClear rsa.msBits rest) := by
    intro hem
    rw [topBits_iff _ hms]
    unfold lead TopClear at *
    by_cases hzero : rsa.msBits = 0
    · rw [if_pos hzero] at hlength ⊢
      rw [length_singleton] at hlength
      obtain ⟨byte, rest, rfl⟩ := exists_cons_of_length_pos (l := em) (by omega)
      rw [hzero, headD_cons]
      constructor
      · intro hlt
        have hbyte : byte = 0 := UInt8.toNat_inj.mp (Nat.lt_one_iff.mp hlt)
        rw [hbyte]
        exact ⟨rest, rfl, fun hne => absurd rfl hne⟩
      · rintro ⟨rest', heq, -⟩
        cases heq
        decide
    · rw [if_neg hzero]
      constructor
      · exact fun hlt => ⟨em, rfl, fun _ => hlt⟩
      · rintro ⟨rest, rfl, hclear⟩
        exact hclear hzero
  by_cases htop : (em.headD 0).toNat &&& (0xff <<< rsa.msBits) = 0
  · rw [if_neg (not_not.mpr htop)]
    obtain ⟨rest, rfl, hclear⟩ := (hfirst hem).mp htop
    rw [length_append] at hem
    rw [drop_left, pssVerify_exact hms (by omega) hclear]
    simp [hpos, pssEncoding]
  · rw [if_pos htop]
    refine ⟨nofun, ?_⟩
    rintro ⟨-, salt, hfits, -, -, hencoding⟩
    exact absurd ((hfirst hem).mpr ⟨_, hencoding, (pssEncode_clear _ _ hms hfits).2⟩) htop

theorem beNat_lt_of_topClear {k : Nat} {bytes : Bytes} (hk : k ≠ 0) (hclear : TopClear k bytes)
    (hpos : 0 < bytes.length) : beNat bytes < 2 ^ (8 * (bytes.length - 1) + k) := by
  obtain ⟨byte, rest, rfl⟩ := exists_cons_of_length_pos hpos
  have hrest := beNat_lt rest
  have hbyte : byte.toNat + 1 ≤ 2 ^ k := hclear hk
  have hpow : 2 ^ (8 * rest.length + k) = 2 ^ k * 256 ^ rest.length := by
    rw [Nat.pow_add, Nat.pow_mul, Nat.mul_comm]
  rw [beNat_cons, length_cons, Nat.add_sub_cancel, hpow]
  calc byte.toNat * 256 ^ rest.length + beNat rest
      < byte.toNat * 256 ^ rest.length + 256 ^ rest.length := Nat.add_lt_add_left hrest _
    _ = (byte.toNat + 1) * 256 ^ rest.length := (Nat.succ_mul _ _).symm
    _ ≤ 2 ^ k * 256 ^ rest.length := Nat.mul_le_mul_right _ hbyte

theorem pssEncoding_lt (mgf1Hash : Option EvpMd) (mHash : FixedBytes md.size)
    (hpos : 0 < rsa.bits) {salt : Bytes} (hfits : md.size + salt.length + 2 ≤ rsa.emLen) :
    (pssEncoding rsa md mgf1Hash mHash salt).length = rsa.size ∧
      beNat (pssEncoding rsa md mgf1Hash mHash salt) < 2 ^ (rsa.bits - 1) := by
  obtain ⟨hlength, hclear⟩ := pssEncode_clear (mgf1Hash.getD md) mHash rsa.msBits_lt hfits
  have hsize := rsa.length_lead hpos
  constructor
  · rw [length_append, hlength, hsize]
  · rw [rsa.bits_eq hpos]
    unfold pssEncoding lead
    by_cases hzero : rsa.msBits = 0
    · rw [if_pos hzero, if_pos hzero, singleton_append, beNat_cons]
      have hlt := beNat_lt (pssEncode rsa.msBits rsa.emLen md (mgf1Hash.getD md) mHash salt)
      rw [hlength] at hlt
      rw [UInt8.toNat_zero, Nat.zero_mul, Nat.zero_add, Nat.pow_mul]
      exact hlt
    · rw [if_neg hzero, if_neg hzero, nil_append]
      have hlt := beNat_lt_of_topClear hzero hclear (by omega)
      rw [hlength] at hlt
      exact hlt

end

/-- **RSA-PSS.**  An encoding is a number below `2 ^ (bits - 1)`, and is accepted with the length of
    its salt, with the request that it was made by, and with automatic recovery, unless a longer
    salt is required.  With a salt length that is given, exactly the encodings are accepted that are
    made from some salt of this length. -/
theorem rsa_pss_exact (rsa : RsaModulus) (md : EvpMd) (mgf1Hash : Option EvpMd)
    (mHash : FixedBytes md.size) :
    (∀ (sLenRequested : Int) (rand : (len : Nat) → FixedBytes len) (em : Bytes),
      rsaPaddingAddPkcs1PssMgf1 rsa md mgf1Hash mHash sLenRequested rand = some em →
      ∃ sLen : Nat, pssSaltLength md.size (rsaPssMaxSaltlen rsa md.size) sLenRequested = some sLen ∧
        em.length = rsa.size ∧ beNat em < 2 ^ (rsa.bits - 1) ∧ ∀ minSLen : Int, minSLen ≤ sLen →
          rsaVerifyPkcs1PssMgf1 rsa md mgf1Hash mHash em sLen minSLen = true ∧
          rsaVerifyPkcs1PssMgf1 rsa md mgf1Hash mHash em sLenRequested minSLen = true ∧
          rsaVerifyPkcs1PssMgf1 rsa md mgf1Hash mHash em RSA_PSS_SALTLEN_AUTO minSLen = true) ∧
    (∀ (em : Bytes) (sLen : Nat) (minSLen : Int), em.length = rsa.size →
      (rsaVerifyPkcs1PssMgf1 rsa md mgf1Hash mHash em sLen minSLen = true ↔
        minSLen ≤ sLen ∧ ∃ rand : (len : Nat) → FixedBytes len,
          rsaPaddingAddPkcs1PssMgf1 rsa md mgf1Hash mHash sLen rand = some em)) := by
  have hgiven : ∀ sLen : Nat, pssExpectedSaltLength md.size sLen = some (sLen : Int) := by
    intro sLen
    unfold pssExpectedSaltLength RSA_PSS_SALTLEN_DIGEST RSA_PSS_SALTLEN_AUTO
    rw [if_neg (by omega), if_neg (by omega), if_neg (by omega)]
  have hauto : pssExpectedSaltLength md.size RSA_PSS_SALTLEN_AUTO = some RSA_PSS_SALTLEN_AUTO := rfl
  constructor
  · intro sLenRequested rand em hadd
    obtain ⟨hpos, sLen, hrequest, hfits, rfl⟩ := rsaPaddingAdd_eq_some.mp hadd
    have hsalt : (rand sLen).bytes.length = sLen := (rand sLen).length_eq
    obtain ⟨hlength, hlt⟩ := pssEncoding_lt mgf1Hash mHash hpos (hsalt.symm ▸ hfits)
    refine ⟨sLen, hrequest, hlength, hlt, ?_⟩
    intro minSLen hmin
    have haccept : ∀ asked expected : Int,
        pssExpectedSaltLength md.size asked = some expected →
        (0 ≤ expected → sLen = expected.toNat) →
        rsaVerifyPkcs1PssMgf1 rsa md mgf1Hash mHash
          (pssEncoding rsa md mgf1Hash mHash (rand sLen).bytes) asked minSLen = true := by
      intro asked expected hasked hsame
      refine (rsaVerify_iff hlength hasked).mpr ⟨hpos, (rand sLen).bytes, ?_, ?_, ?_, rfl⟩
      · rw [hsalt]
        exact hfits
      · rw [hsalt]
        exact hsame
      · rw [hsalt]
        exact hmin
    refine ⟨haccept _ _ (hgiven sLen) (fun _ => rfl), ?_, haccept _ _ hauto nofun⟩
    unfold pssSaltLength at hrequest
    by_cases hdigest : sLenRequested = RSA_PSS_SALTLEN_DIGEST
    · rw [if_pos hdigest] at hrequest
      cases hrequest
      exact haccept _ md.size (if_pos hdigest) (fun _ => rfl)
    rw [if_neg hdigest] at hrequest
    by_cases hmax : sLenRequested = RSA_PSS_SALTLEN_AUTO
    · rw [hmax]
      exact haccept _ _ hauto nofun
    rw [if_neg hmax] at hrequest
    by_cases hneg : sLenRequested < 0
    · rw [if_pos hneg] at hrequest
      cases hrequest
    rw [if_neg hneg] at hrequest
    cases hrequest
    have hback : ((sLenRequested.toNat : Nat) : Int) = sLenRequested := by omega
    have hexpected := hgiven sLenRequested.toNat
    rw [hback] at hexpected
    exact haccept _ _ hexpected (fun _ => rfl)
  · intro em sLen minSLen hem
    rw [rsaVerify_iff hem (hgiven sLen)]
    have hrequest : pssSaltLength md.size (rsaPssMaxSaltlen rsa md.size) sLen = some sLen := by
      unfold pssSaltLength RSA_PSS_SALTLEN_DIGEST RSA_PSS_SALTLEN_AUTO
      rw [if_neg (by omega), if_neg (by omega), if_neg (by omega), Int.toNat_natCast]
    constructor
    · rintro ⟨hpos, salt, hfits, hsLen, hmin, rfl⟩
      have hlength : salt.length = sLen := hsLen (Int.natCast_nonneg _)
      subst hlength
      refine ⟨hmin, ?_⟩
      -- the random bytes are the salt, where its length is asked for
      refine ⟨fun len => if h : salt.length = len then ⟨salt, h⟩ else
        ⟨List.replicate len 0, length_replicate⟩, ?_⟩
      refine rsaPaddingAdd_eq_some.mpr ⟨hpos, salt.length, hrequest, hfits, ?_⟩
      rw [dif_pos rfl]
    · rintro ⟨hmin, rand, hadd⟩
      obtain ⟨hpos, sLen', hsome, hfits, rfl⟩ := rsaPaddingAdd_eq_some.mp hadd
      rw [hrequest] at hsome
      cases hsome
      have hsalt : (rand sLen).bytes.length = sLen := (rand sLen).length_eq
      refine ⟨hpos, (rand sLen).bytes, ?_, ?_, ?_, rfl⟩
      · rw [hsalt]
        exact hfits
      · intro _
        rw [hsalt]
        rfl
      · rw [hsalt]
        exact hmin

/-- A digest of one byte, the sum of the data. -/
def sumDigest : EvpMd where
  size := 1
  digest data := [data.foldl UInt8.add 0]
  length_digest _ := rfl
  size_pos := by decide
  size_le := by decide

/-- A modulus with one bit in its first byte, so that the encoding starts with a zero. -/
def oddModulus : RsaModulus := ⟨57, by decide⟩

theorem rsa_pss_exact_salt_two :
    let mHash : FixedBytes sumDigest.size := ⟨[5], rfl⟩
    let em : Bytes := [0, 11, 12, 12, 13, 12, 11, 0xbc]
    rsaPaddingAddPkcs1PssMgf1 oddModulus sumDigest none mHash 2
        (fun len => ⟨replicate len 3, length_replicate⟩) = some em ∧
      rsaVerifyPkcs1PssMgf1 oddModulus sumDigest none mHash em RSA_PSS_SALTLEN_AUTO 2 = true := by
  intro mHash em
  have hadd : rsaPaddingAddPkcs1PssMgf1 oddModulus sumDigest none mHash 2
      (fun len => ⟨replicate len 3, length_replicate⟩) = some em := by
    decide +kernel
  obtain ⟨sLen, hsLen, -, -, haccepts⟩ :=
    (rsa_pss_exact oddModulus sumDigest none mHash).1 2 _ em hadd
  cases hsLen
  exact ⟨hadd, (haccepts 2 (by decide)).2.2⟩

end AwsLc
