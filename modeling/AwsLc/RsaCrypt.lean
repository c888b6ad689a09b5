import AwsLc.ConstantTime
import AwsLc.RsaPss

/-!
# Padding for RSA encryption (`rsa_crypt.c`)

`RSA_padding_add_PKCS1_OAEP_mgf1` masks a data block, which holds the hash of a label, zeros, a one
and the message, by a seed and the seed by the masked block.  `rsa_padding_add_PKCS1_type_2` puts
non-zero bytes and a zero before the message.
-/

namespace AwsLc

open List UInt64

/-! ### OAEP -/

/-- The data block before it is masked: `RSA_padding_add_PKCS1_OAEP_mgf1` writes it to `db`. -/
def oaepDataBlock (emlen : Nat) (md : EvpMd) (param message : Bytes) : Bytes :=
  md.digest param ++ replicate (emlen - message.length - 2 * md.size - 1) 0 ++ 1 :: message

def oaepEncode (emlen : Nat) (md mgf1md : EvpMd) (param message seed : Bytes) : Bytes :=
  let db := oaepDataBlock emlen md param message
  let dbmask := pkcs1Mgf1 (emlen - md.size) seed mgf1md
  let db := xorBytes db dbmask
  let seedmask := pkcs1Mgf1 md.size db mgf1md
  0 :: xorBytes seed seedmask ++ db

variable (sha1 : EvpMd)

def rsaPaddingAddPkcs1OaepMgf1 (toLen : Nat) (message param : Bytes)
    (md mgf1md : Option EvpMd) (seed : FixedBytes (md.getD sha1).size) : Option Bytes :=
  let md := md.getD sha1
  let mgf1md := mgf1md.getD md
  if toLen < 2 * md.size + 2 then none
  else
    let emlen := toLen - 1
    if message.length > emlen - 2 * md.size - 1 then none
    else if emlen < 2 * md.size + 1 then none
    else some (oaepEncode emlen md mgf1md param message seed.bytes)

/-- The variables of the loop of `RSA_padding_check_PKCS1_OAEP_mgf1`. -/
structure OaepScan where
  bad : UInt64
  lookingForOneByte : UInt64
  oneIndex : UInt64

/-- The loop of `RSA_padding_check_PKCS1_OAEP_mgf1`, from index `i` on. -/
def oaepLoop (i : Nat) : Bytes → OaepScan → OaepScan
  | [], scan => scan
  | byte :: rest, scan =>
    let equals1 := constantTimeEqW byte.toUInt64 1
    let equals0 := constantTimeEqW byte.toUInt64 0
    let oneIndex :=
      constantTimeSelectW (scan.lookingForOneByte &&& equals1) (ofNat i) scan.oneIndex
    let lookingForOneByte := constantTimeSelectW equals1 0 scan.lookingForOneByte
    let bad := scan.bad ||| (lookingForOneByte &&& ~~~equals0)
    oaepLoop (i + 1) rest ⟨bad, lookingForOneByte, oneIndex⟩

/-- The unmasked data block of `RSA_padding_check_PKCS1_OAEP_mgf1`. -/
def oaepUnmask (md mgf1md : EvpMd) (block : Bytes) : Bytes :=
  let dblen := block.length - md.size - 1
  let maskedseed := (block.drop 1).take md.size
  let maskeddb := block.drop (1 + md.size)
  let seed := xorBytes (pkcs1Mgf1 md.size maskeddb mgf1md) maskedseed
  xorBytes (pkcs1Mgf1 dblen seed mgf1md) maskeddb

variable (maxOut : Nat)

def rsaPaddingCheckPkcs1OaepMgf1 (block param : Bytes) (md mgf1md : Option EvpMd) : Option Bytes :=
  let md := md.getD sha1
  let mgf1md := mgf1md.getD md
  if block.length < 1 + 2 * md.size + 1 then none
  else
    let dblen := block.length - md.size - 1
    let db := oaepUnmask md mgf1md block
    let phash := md.digest param
    let bad := ~~~constantTimeIsZeroW (cryptoMemcmp (db.take md.size) phash).toUInt64
    let bad := bad ||| ~~~constantTimeIsZeroW (block.getD 0 0).toUInt64
    let scan := oaepLoop md.size (db.drop md.size) ⟨bad, maskW true, 0⟩
    let bad := scan.bad ||| scan.lookingForOneByte
    if bad ≠ 0 then none
    else
      let oneIndex := scan.oneIndex.toNat + 1
      let mlen := dblen - oneIndex
      if maxOut < mlen then none else some ((db.drop oneIndex).take mlen)

/-! ### Type 2 -/

def RSA_PKCS1_PADDING_SIZE : Nat := 11

/-- What `rand_nonzero` returns. -/
structure NonzeroBytes (len : Nat) extends FixedBytes len where
  nonzero : ∀ byte ∈ bytes, byte ≠ 0

def rsaPaddingAddPkcs1Type2 (toLen : Nat) (message : Bytes)
    (randNonzero : (len : Nat) → NonzeroBytes len) : Option Bytes :=
  if toLen < RSA_PKCS1_PADDING_SIZE then none
  else if message.length > toLen - RSA_PKCS1_PADDING_SIZE then none
  else
    let paddingLen := toLen - 3 - message.length
    some (0 :: 2 :: (randNonzero paddingLen).bytes ++ 0 :: message)

/-- The variables of the loop of `rsa_padding_check_PKCS1_type_2`. -/
structure Type2Scan where
  zeroIndex : UInt64
  lookingForIndex : UInt64

/-- The loop of `rsa_padding_check_PKCS1_type_2`, from index `i` on. -/
def type2Loop (i : Nat) : Bytes → Type2Scan → Type2Scan
  | [], scan => scan
  | byte :: rest, scan =>
    let equals0 := constantTimeIsZeroW byte.toUInt64
    let zeroIndex :=
      constantTimeSelectW (scan.lookingForIndex &&& equals0) (ofNat i) scan.zeroIndex
    let lookingForIndex := constantTimeSelectW equals0 0 scan.lookingForIndex
    type2Loop (i + 1) rest ⟨zeroIndex, lookingForIndex⟩

def rsaPaddingCheckPkcs1Type2 (block : Bytes) : Option Bytes :=
  if block.length = 0 then none
  else if block.length < RSA_PKCS1_PADDING_SIZE then none
  else
    let firstByteIsZero := constantTimeEqW (block.getD 0 0).toUInt64 0
    let secondByteIsTwo := constantTimeEqW (block.getD 1 0).toUInt64 2
    let scan := type2Loop 2 (block.drop 2) ⟨0, maskW true⟩
    let validIndex := firstByteIsZero
    let validIndex := validIndex &&& secondByteIsTwo
    let validIndex := validIndex &&& ~~~scan.lookingForIndex
    let validIndex := validIndex &&& constantTimeGeW scan.zeroIndex (2 + 8)
    let zeroIndex := scan.zeroIndex + 1
    if validIndex = 0 then none
    else
      let msgLen := block.length - zeroIndex.toNat
      if msgLen > maxOut then none else some ((block.drop zeroIndex.toNat).take msgLen)

theorem constantTimeEqW_byte (byte other : UInt8) :
    constantTimeEqW byte.toUInt64 other.toUInt64 = maskW (byte == other) := by
  rw [constantTimeEqW_eq]
  congr 1
  rw [Bool.eq_iff_iff, beq_iff_eq, beq_iff_eq, UInt8.toUInt64_inj]

theorem constantTimeIsZeroW_byte (byte : UInt8) :
    constantTimeIsZeroW byte.toUInt64 = maskW (byte == 0) := by
  have heq := constantTimeEqW_byte byte 0
  rwa [constantTimeEqW, show (0 : UInt8).toUInt64 = 0 from rfl, UInt64.xor_zero] at heq

/-- The search goes on after a byte that is not the one searched for. -/
theorem mask_looking (byte other : UInt8) (looking : Bool) :
    (if byte == other then 0 else maskW looking) = maskW (looking && byte != other) := by
  cases hcase : byte == other <;> cases looking <;> simp_all [maskW]

theorem after_separator_inj {separator : UInt8} {a b first second : Bytes}
    (ha : ∀ byte ∈ a, byte ≠ separator) (hb : ∀ byte ∈ b, byte ≠ separator)
    (h : a ++ separator :: first = b ++ separator :: second) : a = b ∧ first = second := by
  induction a generalizing b with
  | nil =>
    cases b with
    | nil => exact ⟨rfl, (cons.inj h).2⟩
    | cons byte b => exact absurd (cons.inj h).1.symm (hb byte mem_cons_self)
  | cons byte a ih =>
    cases b with
    | nil => exact absurd (cons.inj h).1 (ha byte mem_cons_self)
    | cons other b =>
      obtain ⟨hbyte, hrest⟩ := cons.inj h
      obtain ⟨hab, hlast⟩ := ih (fun x hx => ha x (mem_cons_of_mem _ hx))
        (fun x hx => hb x (mem_cons_of_mem _ hx)) hrest
      exact ⟨by rw [hbyte, hab], hlast⟩

variable (i : Nat)

theorem oaepLoop_cons (byte : UInt8) (rest : Bytes) (bad looking : Bool) (oneIndex : UInt64) :
    oaepLoop i (byte :: rest) ⟨maskW bad, maskW looking, oneIndex⟩ = oaepLoop (i + 1) rest
        ⟨maskW (bad || (looking && byte != 1 && byte != 0)), maskW (looking && byte != 1),
          if looking && byte == 1 then ofNat i else oneIndex⟩ := by
  have hone : constantTimeEqW byte.toUInt64 1 = maskW (byte == 1) := constantTimeEqW_byte byte 1
  have hzero : constantTimeEqW byte.toUInt64 0 = maskW (byte == 0) := constantTimeEqW_byte byte 0
  rw [oaepLoop]
  simp only [hone, hzero, maskW_and, constantTimeSelectW_eq, mask_looking, maskW_not, maskW_or]
  rfl

variable (rest : Bytes)

/-- Once the separator has been found, the rest does not matter. -/
theorem oaepLoop_found (bad : Bool) (oneIndex : UInt64) :
    oaepLoop i rest ⟨maskW bad, maskW false, oneIndex⟩ = ⟨maskW bad, maskW false, oneIndex⟩ := by
  induction rest generalizing i with
  | nil => rfl
  | cons byte rest ih =>
    rw [oaepLoop_cons]
    simpa using ih (i + 1)

theorem oaepLoop_bad (looking : Bool) (oneIndex : UInt64) :
    (oaepLoop i rest ⟨maskW true, maskW looking, oneIndex⟩).bad = maskW true := by
  induction rest generalizing i looking oneIndex with
  | nil => rfl
  | cons byte rest ih =>
    rw [oaepLoop_cons]
    exact ih _ _ _

theorem true_or_mask (word : UInt64) : maskW true ||| word = maskW true := neg_one_or

/-- **The scan for the one.**  Zeros, a one and anything give the index of the one; any other bytes
    leave an error or the search unfinished. -/
theorem oaepLoop_cases (i : Nat) (bad : Bool) :
    (∃ zeros message, rest = replicate zeros 0 ++ 1 :: message ∧
      oaepLoop i rest ⟨maskW bad, maskW true, 0⟩ = ⟨maskW bad, maskW false, ofNat (i + zeros)⟩) ∨
    ((∀ zeros message, rest ≠ replicate zeros 0 ++ 1 :: message) ∧
      (oaepLoop i rest ⟨maskW bad, maskW true, 0⟩).bad |||
        (oaepLoop i rest ⟨maskW bad, maskW true, 0⟩).lookingForOneByte = maskW true) := by
  induction rest generalizing i with
  | nil =>
    right
    refine ⟨?_, ?_⟩
    · intro zeros message
      simp
    · rw [oaepLoop, maskW_or, Bool.or_true]
  | cons byte rest ih =>
    rw [oaepLoop_cons]
    by_cases hone : byte = 1
    · left
      refine ⟨0, rest, by simp [hone], ?_⟩
      simpa [hone] using oaepLoop_found (i + 1) rest bad (ofNat i)
    by_cases hzero : byte = 0
    · subst hzero
      have hround : (⟨maskW (bad || (true && (0 : UInt8) != 1 && (0 : UInt8) != 0)),
          maskW (true && (0 : UInt8) != 1),
          if true && (0 : UInt8) == 1 then ofNat i else 0⟩ : OaepScan) =
          ⟨maskW bad, maskW true, 0⟩ := by
        cases bad <;> rfl
      rw [hround]
      rcases ih (i + 1) with ⟨zeros, message, hrest, hscan⟩ | ⟨hnone, hscan⟩
      · left
        refine ⟨zeros + 1, message, ?_, ?_⟩
        · rw [hrest]
          rfl
        · rw [hscan, Nat.add_right_comm, Nat.add_assoc]
      · right
        refine ⟨?_, hscan⟩
        intro zeros message heq
        cases zeros with
        | zero => simp at heq
        | succ zeros =>
          rw [replicate_succ, cons_append] at heq
          exact hnone zeros message (cons.inj heq).2
    · right
      refine ⟨?_, ?_⟩
      · intro zeros message heq
        cases zeros with
        | zero => exact hone (cons.inj heq).1
        | succ zeros =>
          rw [replicate_succ, cons_append] at heq
          exact hzero (cons.inj heq).1
      · have hround : (bad || (true && byte != 1 && byte != 0)) = true := by
          simp [hone, hzero]
        rw [hround, oaepLoop_bad, true_or_mask]

theorem type2Loop_cons (byte : UInt8) (rest : Bytes) (looking : Bool) (zeroIndex : UInt64) :
    type2Loop i (byte :: rest) ⟨zeroIndex, maskW looking⟩ = type2Loop (i + 1) rest
        ⟨if looking && byte == 0 then ofNat i else zeroIndex, maskW (looking && byte != 0)⟩ := by
  rw [type2Loop]
  simp only [constantTimeIsZeroW_byte, maskW_and, constantTimeSelectW_eq, mask_looking]

/-- Once the separator has been found, the rest does not matter. -/
theorem type2Loop_found (zeroIndex : UInt64) :
    type2Loop i rest ⟨zeroIndex, maskW false⟩ = ⟨zeroIndex, maskW false⟩ := by
  induction rest generalizing i with
  | nil => rfl
  | cons byte rest ih =>
    rw [type2Loop_cons]
    simpa using ih (i + 1)

/-- **The scan for the zero.**  The index is that of the first zero. -/
theorem type2Loop_cases (i : Nat) :
    (∃ padding message, rest = padding ++ 0 :: message ∧ (∀ byte ∈ padding, byte ≠ 0) ∧
      type2Loop i rest ⟨0, maskW true⟩ = ⟨ofNat (i + padding.length), maskW false⟩) ∨
    (0 ∉ rest ∧ type2Loop i rest ⟨0, maskW true⟩ = ⟨0, maskW true⟩) := by
  induction rest generalizing i with
  | nil =>
    right
    exact ⟨not_mem_nil, rfl⟩
  | cons byte rest ih =>
    rw [type2Loop_cons]
    by_cases hzero : byte = 0
    · left
      refine ⟨[], rest, by simp [hzero], by simp, ?_⟩
      simpa [hzero] using type2Loop_found (i + 1) rest (ofNat i)
    · have hround : (⟨if true && byte == 0 then ofNat i else 0, maskW (true && byte != 0)⟩ :
          Type2Scan) = ⟨0, maskW true⟩ := by
        have hne : (byte != 0) = true := bne_iff_ne.mpr hzero
        rw [hne]
        simp [hzero]
      rw [hround]
      rcases ih (i + 1) with ⟨padding, message, hrest, hnonzero, hscan⟩ | ⟨hnone, hscan⟩
      · left
        refine ⟨byte :: padding, message, ?_, ?_, ?_⟩
        · rw [hrest]
          rfl
        · intro other hother
          rcases mem_cons.mp hother with rfl | htail
          · exact hzero
          · exact hnonzero other htail
        · rw [hscan, length_cons, Nat.add_right_comm, Nat.add_assoc]
      · right
        refine ⟨?_, hscan⟩
        intro hmem
        rcases mem_cons.mp hmem with heq | htail
        · exact hzero heq.symm
        · exact hnone htail

/-! ### OAEP round trips -/

variable {emlen : Nat}

theorem length_oaepDataBlock {md : EvpMd} (param : Bytes) {message : Bytes}
    (h : message.length + 2 * md.size + 1 ≤ emlen) :
    (oaepDataBlock emlen md param message).length = emlen - md.size := by
  unfold oaepDataBlock
  simp only [length_append, length_cons, length_replicate, md.length_digest]
  omega

theorem oaepUnmask_parts (md mgf1md : EvpMd) (first : UInt8) {maskedSeed : Bytes}
    (maskedDb : Bytes) (hseed : maskedSeed.length = md.size) :
    oaepUnmask md mgf1md (first :: maskedSeed ++ maskedDb) = xorBytes (pkcs1Mgf1 maskedDb.length
        (xorBytes (pkcs1Mgf1 md.size maskedDb mgf1md) maskedSeed) mgf1md) maskedDb := by
  have hlength : (first :: maskedSeed ++ maskedDb).length - md.size - 1 = maskedDb.length := by
    simp only [cons_append, length_cons, length_append]
    omega
  have hmaskedSeed : ((first :: maskedSeed ++ maskedDb).drop 1).take md.size = maskedSeed := by
    rw [cons_append, drop_one, tail_cons, ← hseed, take_left]
  have hmaskedDb : (first :: maskedSeed ++ maskedDb).drop (1 + md.size) = maskedDb := by
    rw [cons_append, Nat.add_comm, drop_succ_cons, ← hseed, drop_left]
  unfold oaepUnmask
  dsimp only
  rw [hlength, hmaskedSeed, hmaskedDb]

theorem oaepUnmask_encode {md : EvpMd} (mgf1md : EvpMd) (param : Bytes) {message seed : Bytes}
    (h : message.length + 2 * md.size + 1 ≤ emlen) (hseed : seed.length = md.size) :
    (oaepEncode emlen md mgf1md param message seed).length = emlen + 1 ∧
      oaepUnmask md mgf1md (oaepEncode emlen md mgf1md param message seed) =
        oaepDataBlock emlen md param message := by
  have hdb := length_oaepDataBlock param h
  unfold oaepEncode
  dsimp only
  generalize oaepDataBlock emlen md param message = db at hdb ⊢
  have hmask : (pkcs1Mgf1 (emlen - md.size) seed mgf1md).length = db.length := by
    rw [length_pkcs1Mgf1, hdb]
  have hmaskedDb := length_xorBytes hmask.symm
  have hseedMask : seed.length = (pkcs1Mgf1 md.size
      (xorBytes db (pkcs1Mgf1 (emlen - md.size) seed mgf1md)) mgf1md).length := by
    rw [length_pkcs1Mgf1, hseed]
  have hmaskedSeed := length_xorBytes hseedMask
  constructor
  · rw [cons_append, length_cons, length_append, hmaskedSeed, hmaskedDb]
    omega
  · rw [oaepUnmask_parts _ _ _ _ (hmaskedSeed.trans hseed), hmaskedDb, xorBytes_comm seed,
      xorBytes_xorBytes hseedMask.le, hdb, xorBytes_comm db, xorBytes_xorBytes hmask.ge]

/-- A block is the encoding of what comes out of it, with the seed that comes out of it. -/
theorem oaepEncode_unmask {md : EvpMd} (mgf1md : EvpMd) {param message maskedSeed maskedDb : Bytes}
    (hlength : emlen = maskedDb.length + md.size) (hseed : maskedSeed.length = md.size)
    (h : oaepUnmask md mgf1md (0 :: maskedSeed ++ maskedDb) =
      oaepDataBlock emlen md param message) : oaepEncode emlen md mgf1md param message
        (xorBytes (pkcs1Mgf1 md.size maskedDb mgf1md) maskedSeed) =
      0 :: maskedSeed ++ maskedDb := by
  rw [oaepUnmask_parts _ _ _ _ hseed] at h
  unfold oaepEncode
  dsimp only
  have hlen : emlen - md.size = maskedDb.length := by omega
  have hmask : maskedDb.length = (pkcs1Mgf1 maskedDb.length
      (xorBytes (pkcs1Mgf1 md.size maskedDb mgf1md) maskedSeed) mgf1md).length :=
    (length_pkcs1Mgf1 _ _ _).symm
  have hseedMask : maskedSeed.length = (pkcs1Mgf1 md.size maskedDb mgf1md).length := by
    rw [length_pkcs1Mgf1, hseed]
  rw [← h, hlen, xorBytes_comm (xorBytes _ maskedDb), xorBytes_xorBytes hmask.le,
    xorBytes_comm (xorBytes _ maskedSeed), xorBytes_xorBytes hseedMask.le]

theorem length_oaepUnmask (md mgf1md : EvpMd) (block : Bytes) :
    (oaepUnmask md mgf1md block).length = block.length - md.size - 1 := by
  unfold oaepUnmask
  rw [length_xorBytes]
  · rw [length_pkcs1Mgf1]
  · rw [length_pkcs1Mgf1, length_drop]
    omega

theorem oaep_bad_eq {hash phash : Bytes} (hlength : hash.length = phash.length) (first : UInt8) :
    ~~~constantTimeIsZeroW (cryptoMemcmp hash phash).toUInt64 |||
        ~~~constantTimeIsZeroW first.toUInt64 = maskW (!(hash == phash && first == 0)) := by
  have hmemcmp : (cryptoMemcmp hash phash == 0) = (hash == phash) := by
    rw [Bool.eq_iff_iff, beq_iff_eq, beq_iff_eq, cryptoMemcmp_eq_zero_iff hlength]
  rw [constantTimeIsZeroW_byte, constantTimeIsZeroW_byte, hmemcmp, maskW_not, maskW_not, maskW_or,
    ← Bool.not_and]

theorem eq_oaepDataBlock_iff (md : EvpMd) (param : Bytes) {db : Bytes}
    (hlength : db.length = emlen - md.size) (message : Bytes) :
    (message.length + 2 * md.size + 1 ≤ emlen ∧ db = oaepDataBlock emlen md param message) ↔
      db.take md.size = md.digest param ∧
        ∃ zeros, db.drop md.size = replicate zeros 0 ++ 1 :: message := by
  have hdigest := md.length_digest param
  constructor
  · rintro ⟨hle, rfl⟩
    unfold oaepDataBlock
    rw [append_assoc]
    exact ⟨take_left' hdigest, _, drop_left' hdigest⟩
  · rintro ⟨htake, zeros, hdrop⟩
    have hzeros := congrArg length hdrop
    rw [length_drop, length_append, length_replicate, length_cons] at hzeros
    refine ⟨by omega, ?_⟩
    unfold oaepDataBlock
    rw [← htake, append_assoc, show emlen - message.length - 2 * md.size - 1 = zeros by omega,
      ← hdrop, take_append_drop]

theorem rsaPaddingCheckPkcs1OaepMgf1_iff {block : Bytes}
    (hblock : block.length < 2 ^ 64) (param : Bytes) (md mgf1md : Option EvpMd) (message : Bytes) :
    rsaPaddingCheckPkcs1OaepMgf1 sha1 maxOut block param md mgf1md = some message ↔
      2 * (md.getD sha1).size + 2 ≤ block.length ∧ block.getD 0 0 = 0 ∧ message.length ≤ maxOut ∧
        message.length + 2 * (md.getD sha1).size + 1 ≤ block.length - 1 ∧
        oaepUnmask (md.getD sha1) (mgf1md.getD (md.getD sha1)) block =
          oaepDataBlock (block.length - 1) (md.getD sha1) param message := by
  unfold rsaPaddingCheckPkcs1OaepMgf1
  dsimp only
  generalize md.getD sha1 = md
  generalize mgf1md.getD md = mgf1md
  by_cases hshort : block.length < 1 + 2 * md.size + 1
  · rw [if_pos hshort]
    exact iff_of_false nofun fun h => by omega
  rw [if_neg hshort]
  have hdb := length_oaepUnmask md mgf1md block
  generalize oaepUnmask md mgf1md block = db at hdb ⊢
  have htake : (db.take md.size).length = (md.digest param).length := by
    rw [length_take, md.length_digest, hdb]
    omega
  have hparts := eq_oaepDataBlock_iff md param
    (show db.length = block.length - 1 - md.size by omega) message
  rw [oaep_bad_eq htake, hparts]
  rcases oaepLoop_cases (db.drop md.size) md.size
      (!(db.take md.size == md.digest param && block.getD 0 0 == 0)) with
    ⟨zeros, found, hdrop, hscan⟩ | ⟨hnone, hscan⟩
  · have hzeros := congrArg length hdrop
    rw [length_drop, length_append, length_replicate, length_cons] at hzeros
    have hindex : (ofNat (md.size + zeros)).toNat = md.size + zeros :=
      toNat_ofNat_of_lt' (by change _ < 2 ^ 64; omega)
    have hlast : db.drop (md.size + zeros + 1) = found := by
      rw [Nat.add_assoc, ← drop_drop, hdrop, ← drop_drop,
        drop_left' length_replicate]
      rfl
    have hfound : found.length = block.length - md.size - 1 - (md.size + zeros + 1) := by
      omega
    have hmessage : (∃ others, db.drop md.size = replicate others 0 ++ 1 :: message) ↔
        found = message := by
      constructor
      · rintro ⟨others, hothers⟩
        exact (after_separator_inj (by simp) (by simp) (hdrop.symm.trans hothers)).2
      · rintro rfl
        exact ⟨zeros, hdrop⟩
    rw [hscan, hmessage, maskW_or, Bool.or_false]
    dsimp only
    rw [hindex, hlast, ← hfound, take_length]
    by_cases hgood : db.take md.size = md.digest param ∧ block.getD 0 0 = 0
    · obtain ⟨hhash, hfirst⟩ := hgood
      rw [beq_iff_eq.mpr hhash, beq_iff_eq.mpr hfirst, if_neg (by decide)]
      by_cases hmax : maxOut < found.length
      · rw [if_pos hmax]
        refine iff_of_false nofun ?_
        rintro ⟨-, -, hle, -, rfl⟩
        omega
      · rw [if_neg hmax, Option.some_inj]
        constructor
        · rintro rfl
          exact ⟨by omega, hfirst, by omega, hhash, rfl⟩
        · rintro ⟨-, -, -, -, heq⟩
          exact heq
    · have hbad : (db.take md.size == md.digest param && block.getD 0 0 == 0) = false := by
        rw [Bool.eq_false_iff]
        intro htrue
        rw [Bool.and_eq_true, beq_iff_eq, beq_iff_eq] at htrue
        exact hgood htrue
      rw [hbad, if_pos (by decide)]
      refine iff_of_false nofun ?_
      rintro ⟨-, hfirst, -, hhash, -⟩
      exact hgood ⟨hhash, hfirst⟩
  · rw [hscan, if_pos (by decide)]
    refine iff_of_false nofun ?_
    rintro ⟨-, -, -, -, zeros, hdrop⟩
    exact hnone zeros message hdrop

theorem rsaPaddingAddPkcs1OaepMgf1_iff (toLen : Nat) (message param : Bytes)
    (md mgf1md : Option EvpMd) (seed : FixedBytes (md.getD sha1).size) (block : Bytes) :
    rsaPaddingAddPkcs1OaepMgf1 sha1 toLen message param md mgf1md seed = some block ↔
      message.length + 2 * (md.getD sha1).size + 2 ≤ toLen ∧
        block = oaepEncode (toLen - 1) (md.getD sha1) (mgf1md.getD (md.getD sha1)) param message
          seed.bytes := by
  unfold rsaPaddingAddPkcs1OaepMgf1
  dsimp only
  by_cases hfits : message.length + 2 * (md.getD sha1).size + 2 ≤ toLen
  · rw [if_neg (by omega), if_neg (by omega), if_neg (by omega), Option.some_inj, eq_comm]
    exact (and_iff_right hfits).symm
  · refine iff_of_false ?_ fun h => hfits h.1
    by_cases hshort : toLen < 2 * (md.getD sha1).size + 2
    · rw [if_pos hshort]
      nofun
    · rw [if_neg hshort, if_pos (by omega)]
      nofun

/-- **OAEP.**  The check accepts the encodings, and returns the message. -/
theorem oaep_check_iff {block : Bytes}
    (hblock : block.length < 2 ^ 64) (param : Bytes) (md mgf1md : Option EvpMd) (message : Bytes) :
    rsaPaddingCheckPkcs1OaepMgf1 sha1 maxOut block param md mgf1md = some message ↔
      message.length ≤ maxOut ∧
        ∃ seed, rsaPaddingAddPkcs1OaepMgf1 sha1 block.length message param md mgf1md seed =
          some block := by
  rw [rsaPaddingCheckPkcs1OaepMgf1_iff sha1 maxOut hblock]
  simp only [rsaPaddingAddPkcs1OaepMgf1_iff]
  constructor
  · rintro ⟨hlong, hfirst, hmax, hfits, hdb⟩
    obtain ⟨first, rest, rfl⟩ : ∃ first rest, block = first :: rest := by
      cases block with
      | nil => simp at hlong
      | cons first rest => exact ⟨first, rest, rfl⟩
    rw [getD_cons_zero] at hfirst
    subst hfirst
    rw [length_cons] at hlong
    refine ⟨hmax, ?_⟩
    have hseed : (rest.take (md.getD sha1).size).length = (md.getD sha1).size := by
      rw [length_take]
      omega
    have hmask : (xorBytes (pkcs1Mgf1 (md.getD sha1).size (rest.drop (md.getD sha1).size)
        (mgf1md.getD (md.getD sha1))) (rest.take (md.getD sha1).size)).length =
        (md.getD sha1).size := by
      rw [length_xorBytes (by rw [length_pkcs1Mgf1, hseed]), length_pkcs1Mgf1]
    refine ⟨⟨_, hmask⟩, by omega, ?_⟩
    have hcut : 0 :: rest.take (md.getD sha1).size ++ rest.drop (md.getD sha1).size =
        0 :: rest := by
      rw [cons_append, take_append_drop]
    refine (hcut.symm.trans (oaepEncode_unmask _ ?_ hseed ?_).symm)
    · rw [length_cons, length_drop]
      omega
    · rw [hcut]
      exact hdb
  · rintro ⟨hmax, seed, hfits, hencode⟩
    obtain ⟨-, hunmask⟩ := oaepUnmask_encode (mgf1md.getD (md.getD sha1)) param
      (show message.length + 2 * (md.getD sha1).size + 1 ≤ block.length - 1 by omega)
      seed.length_eq
    rw [← hencode] at hunmask
    refine ⟨by omega, ?_, hmax, by omega, hunmask⟩
    rw [hencode]
    rfl

/-! ### Type 2 round trips -/

/-- The check of the bytes and the length before the separator. -/
theorem type2_valid_eq (first second : UInt8) (found : Bool) {index : Nat} (h : index < 2 ^ 64) :
    constantTimeEqW first.toUInt64 0 &&& constantTimeEqW second.toUInt64 2 &&& maskW found &&&
        constantTimeGeW (ofNat index) (2 + 8) =
      maskW (first == 0 && second == 2 && found && decide (10 ≤ index)) := by
  have hzero : constantTimeEqW first.toUInt64 0 = maskW (first == 0) := constantTimeEqW_byte first 0
  have htwo : constantTimeEqW second.toUInt64 2 = maskW (second == 2) :=
    constantTimeEqW_byte second 2
  have hindex : (ofNat index).toNat = index := toNat_ofNat_of_lt' h
  rw [hzero, htwo, constantTimeGeW_eq, maskW_and, maskW_and, maskW_and]
  simp only [le_iff_toNat_le, hindex]
  rfl

/-- **Type 2.**  The check accepts two given bytes, at least eight that are not zero, and a zero
    before the message. -/
theorem type2_check_iff {block : Bytes} (hblock : block.length < 2 ^ 64) (message : Bytes) :
    rsaPaddingCheckPkcs1Type2 maxOut block = some message ↔
      message.length ≤ maxOut ∧ ∃ padding : Bytes, 8 ≤ padding.length ∧
        (∀ byte ∈ padding, byte ≠ 0) ∧ block = 0 :: 2 :: padding ++ 0 :: message := by
  have hsize : RSA_PKCS1_PADDING_SIZE = 11 := rfl
  unfold rsaPaddingCheckPkcs1Type2
  by_cases hshort : block.length < RSA_PKCS1_PADDING_SIZE
  · refine iff_of_false ?_ ?_
    · by_cases hempty : block.length = 0
      · rw [if_pos hempty]
        nofun
      · rw [if_neg hempty, if_pos hshort]
        nofun
    · rintro ⟨-, padding, hlong, -, rfl⟩
      simp only [cons_append, length_cons, length_append] at hshort
      omega
  rw [if_neg (by omega), if_neg hshort]
  obtain ⟨first, second, rest, rfl⟩ : ∃ first second rest, block = first :: second :: rest := by
    rcases block with _ | ⟨first, _ | ⟨second, rest⟩⟩
    · simp at hshort
      omega
    · simp at hshort
      omega
    · exact ⟨first, second, rest, rfl⟩
  have hlength : (first :: second :: rest).length = rest.length + 2 := rfl
  rw [show (first :: second :: rest).getD 0 0 = first from rfl,
    show (first :: second :: rest).getD 1 0 = second from rfl,
    show (first :: second :: rest).drop 2 = rest from rfl]
  dsimp only
  rcases type2Loop_cases rest 2 with ⟨padding, found, hrest, hnonzero, hscan⟩ | ⟨hnone, hscan⟩
  · have hrestLength : rest.length = padding.length + (found.length + 1) := by
      rw [hrest, length_append, length_cons]
    have hindex : (ofNat (2 + padding.length)).toNat = 2 + padding.length :=
      toNat_ofNat_of_lt' (by change _ < 2 ^ 64; omega)
    have hnext : (ofNat (2 + padding.length) + 1).toNat = padding.length + 1 + 2 := by
      rw [UInt64.toNat_add, hindex]
      change (2 + padding.length + 1) % 2 ^ 64 = _
      omega
    have hdrop : (first :: second :: rest).drop (padding.length + 1 + 2) = found := by
      rw [drop_succ_cons, drop_succ_cons, hrest, ← drop_drop, drop_left]
      rfl
    have hformat : (∃ other : Bytes, 8 ≤ other.length ∧ (∀ byte ∈ other, byte ≠ 0) ∧
        first :: second :: rest = 0 :: 2 :: other ++ 0 :: message) ↔
        (first = 0 ∧ second = 2) ∧ 8 ≤ padding.length ∧ found = message := by
      constructor
      · rintro ⟨other, hlong, hother, heq⟩
        rw [cons_append, cons_append] at heq
        obtain ⟨hfirst, heq⟩ := cons.inj heq
        obtain ⟨hsecond, heq⟩ := cons.inj heq
        obtain ⟨rfl, hmessage⟩ := after_separator_inj hnonzero hother (hrest.symm.trans heq)
        exact ⟨⟨hfirst, hsecond⟩, hlong, hmessage⟩
      · rintro ⟨⟨rfl, rfl⟩, hlong, rfl⟩
        exact ⟨padding, hlong, hnonzero, by rw [hrest]; rfl⟩
    rw [hscan, hformat]
    dsimp only
    rw [maskW_not, type2_valid_eq first second _ (by omega), hnext, hdrop,
      show (first :: second :: rest).length - (padding.length + 1 + 2) = found.length by omega,
      take_length]
    by_cases hvalid : (first = 0 ∧ second = 2) ∧ 8 ≤ padding.length
    · obtain ⟨⟨rfl, rfl⟩, hlong⟩ := hvalid
      rw [decide_eq_true (show 10 ≤ 2 + padding.length by omega), if_neg (by decide)]
      by_cases hmax : found.length > maxOut
      · rw [if_pos hmax]
        refine iff_of_false nofun ?_
        rintro ⟨hle, -, -, rfl⟩
        omega
      · rw [if_neg hmax, Option.some_inj]
        constructor
        · rintro rfl
          exact ⟨by omega, ⟨rfl, rfl⟩, hlong, rfl⟩
        · rintro ⟨-, -, -, heq⟩
          exact heq
    · have hbad : (first == 0 && second == 2 && !false && decide (10 ≤ 2 + padding.length)) =
          false := by
        rw [Bool.eq_false_iff]
        intro htrue
        simp only [Bool.and_eq_true, beq_iff_eq, decide_eq_true_eq] at htrue
        exact hvalid ⟨htrue.1.1, by omega⟩
      rw [hbad, if_pos (by decide)]
      refine iff_of_false nofun ?_
      rintro ⟨-, hbytes, hlong, -⟩
      exact hvalid ⟨hbytes, hlong⟩
  · rw [hscan]
    dsimp only
    have hzero : ∀ word : UInt64, word &&& ~~~maskW true = 0 := fun word => UInt64.and_zero
    rw [hzero, UInt64.zero_and, if_pos rfl]
    refine iff_of_false nofun ?_
    rintro ⟨-, padding, -, -, heq⟩
    rw [cons_append, cons_append] at heq
    rw [(cons.inj (cons.inj heq).2).2] at hnone
    exact hnone (mem_append_right _ mem_cons_self)

theorem rsaPaddingAddPkcs1Type2_iff (toLen : Nat) (message : Bytes)
    (randNonzero : (len : Nat) → NonzeroBytes len) (block : Bytes) :
    rsaPaddingAddPkcs1Type2 toLen message randNonzero = some block ↔ message.length + 11 ≤ toLen ∧
        block = 0 :: 2 :: (randNonzero (toLen - 3 - message.length)).bytes ++ 0 :: message := by
  have hsize : RSA_PKCS1_PADDING_SIZE = 11 := rfl
  unfold rsaPaddingAddPkcs1Type2
  by_cases hfits : message.length + 11 ≤ toLen
  · rw [if_neg (by omega), if_neg (by omega), Option.some_inj, eq_comm]
    exact (and_iff_right hfits).symm
  · refine iff_of_false ?_ fun h => hfits h.1
    by_cases hshort : toLen < RSA_PKCS1_PADDING_SIZE
    · rw [if_pos hshort]
      nofun
    · rw [if_neg hshort, if_pos (by omega)]
      nofun

/-- **Encryption padding.**  Of both paddings, the check returns the message that was encoded, and
    it accepts no other blocks than encodings: with OAEP those of some message under some seed, with
    type 2 those of the two bytes, at least eight non-zero bytes, a zero and the message. -/
theorem rsa_encryption_padding_exact :
    (∀ (sha1 : EvpMd) (md mgf1md : Option EvpMd) (label : Bytes) (maxOut : Nat),
      (∀ (toLen : Nat) (message : Bytes) (seed : FixedBytes (md.getD sha1).size) (block : Bytes),
        toLen < 2 ^ 64 → message.length ≤ maxOut →
        rsaPaddingAddPkcs1OaepMgf1 sha1 toLen message label md mgf1md seed = some block →
        block.length = toLen ∧
          rsaPaddingCheckPkcs1OaepMgf1 sha1 maxOut block label md mgf1md = some message) ∧
      ∀ block message : Bytes, block.length < 2 ^ 64 →
        (rsaPaddingCheckPkcs1OaepMgf1 sha1 maxOut block label md mgf1md = some message ↔
          message.length ≤ maxOut ∧
            ∃ seed, rsaPaddingAddPkcs1OaepMgf1 sha1 block.length message label md mgf1md seed =
              some block)) ∧ ∀ maxOut : Nat,
      (∀ (toLen : Nat) (message : Bytes) (randNonzero : (len : Nat) → NonzeroBytes len)
        (block : Bytes), toLen < 2 ^ 64 → message.length ≤ maxOut →
        rsaPaddingAddPkcs1Type2 toLen message randNonzero = some block →
        block.length = toLen ∧ rsaPaddingCheckPkcs1Type2 maxOut block = some message) ∧
      ∀ block message : Bytes, block.length < 2 ^ 64 →
        (rsaPaddingCheckPkcs1Type2 maxOut block = some message ↔
          message.length ≤ maxOut ∧ ∃ padding : Bytes, 8 ≤ padding.length ∧
            (∀ byte ∈ padding, byte ≠ 0) ∧ block = 0 :: 2 :: padding ++ 0 :: message) := by
  refine ⟨?_, ?_⟩
  · intro sha1 md mgf1md label maxOut
    refine ⟨?_, fun block message hblock =>
      oaep_check_iff sha1 maxOut hblock label md mgf1md message⟩
    intro toLen message seed block htoLen hmax hadd
    obtain ⟨hfits, hencode⟩ := (rsaPaddingAddPkcs1OaepMgf1_iff sha1 toLen message label md mgf1md
      seed block).mp hadd
    have hlength : block.length = toLen := by
      rw [hencode, (oaepUnmask_encode (mgf1md.getD (md.getD sha1)) label
        (show message.length + 2 * (md.getD sha1).size + 1 ≤ toLen - 1 by omega)
        seed.length_eq).1]
      omega
    refine ⟨hlength, (oaep_check_iff sha1 maxOut (by omega) label md mgf1md message).mpr
      ⟨hmax, seed, ?_⟩⟩
    rw [hlength]
    exact hadd
  · intro maxOut
    refine ⟨?_, fun block message hblock => type2_check_iff maxOut hblock message⟩
    intro toLen message randNonzero block htoLen hmax hadd
    obtain ⟨hfits, rfl⟩ := (rsaPaddingAddPkcs1Type2_iff toLen message randNonzero block).mp hadd
    have hpadding := (randNonzero (toLen - 3 - message.length)).length_eq
    have hlength : (0 :: 2 :: (randNonzero (toLen - 3 - message.length)).bytes ++
        0 :: message).length = toLen := by
      simp only [cons_append, length_cons, length_append]
      omega
    refine ⟨hlength, (type2_check_iff maxOut (by omega) message).mpr ⟨hmax, _, by omega,
      (randNonzero (toLen - 3 - message.length)).nonzero, rfl⟩⟩

/-- A message of one byte in the shortest blocks. -/
theorem rsa_encryption_padding_sample :
    (rsaPaddingAddPkcs1OaepMgf1 sumDigest 5 [7] [1] none none ⟨[9], rfl⟩ = some [0, 22, 8, 11, 12] ∧
      rsaPaddingCheckPkcs1OaepMgf1 sumDigest 1 [0, 22, 8, 11, 12] [1] none none = some [7]) ∧
    rsaPaddingAddPkcs1Type2 12 [7] (fun len => ⟨⟨replicate len 1, length_replicate⟩,
        fun byte hbyte => eq_of_mem_replicate hbyte ▸ by decide⟩) =
      some (0 :: 2 :: replicate 8 1 ++ [0, 7]) ∧
    rsaPaddingCheckPkcs1Type2 1 (0 :: 2 :: replicate 8 1 ++ [0, 7]) = some [7] := by
  have hoaep : rsaPaddingAddPkcs1OaepMgf1 sumDigest 5 [7] [1] none none ⟨[9], rfl⟩ =
      some [0, 22, 8, 11, 12] := by
    decide +kernel
  refine ⟨⟨hoaep, ?_⟩, rfl, ?_⟩
  · exact ((rsa_encryption_padding_exact.1 sumDigest none none [1] 1).1 5 [7] ⟨[9], rfl⟩ _
      (by decide) (by decide) hoaep).2
  · exact ((rsa_encryption_padding_exact.2 1).1 12 [7]
      (fun len => ⟨⟨replicate len 1, length_replicate⟩,
        fun byte hbyte => eq_of_mem_replicate hbyte ▸ by decide⟩) _ (by decide) (by decide)
      rfl).2

end AwsLc
