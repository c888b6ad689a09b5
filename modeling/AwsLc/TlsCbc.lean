import AwsLc.ConstantTime
import AwsLc.EvpCipher
import Mathlib.Data.List.Rotate

/-!
# TLS records with CBC ciphers

`aead_tls_seal_scatter` and `aead_tls_open` of `e_tls.c` for the CBC ciphers, with the padding and
the MAC of `tls_cbc.c`.  Opening reads the whole record whatever the padding is: the MAC is
collected into a buffer that starts anywhere, and rotated back.

`HMAC` is a parameter, and `EVP_tls_cbc_digest_record` another that computes it.
-/

namespace AwsLc

open Blocks BlockMachine List Nat

/-! ### Ciphers and MACs -/

structure CbcCipher where
  size : Nat
  size_eq : size = 8 ∨ size = 16
  encryptBlock : Bytes → Bytes
  decryptBlock : Bytes → Bytes
  length_encryptBlock : ∀ block, block.length = size → (encryptBlock block).length = size
  length_decryptBlock : ∀ block, block.length = size → (decryptBlock block).length = size
  decrypt_encrypt : ∀ block, block.length = size → decryptBlock (encryptBlock block) = block

namespace CbcCipher

variable (cbc : CbcCipher)
variable (iv : FixedBytes cbc.size)

def chain (block : Bytes) : FixedBytes cbc.size :=
  if h : block.length = cbc.size then ⟨block, h⟩ else iv

def encryptStep (block : Bytes) : FixedBytes cbc.size × Bytes :=
  let out := cbc.encryptBlock (xorBytes iv.bytes block)
  (cbc.chain iv out, out)

def decryptStep (block : Bytes) : FixedBytes cbc.size × Bytes :=
  (cbc.chain iv block, xorBytes iv.bytes (cbc.decryptBlock block))

theorem size_facts : (∃ k, cbc.size = 2 ^ k) ∧ 1 < cbc.size ∧ cbc.size ≤ EVP_MAX_BLOCK_LENGTH := by
  rcases cbc.size_eq with h | h
  · rw [h]
    exact ⟨⟨3, rfl⟩, by decide, by decide⟩
  · rw [h]
    exact ⟨⟨4, rfl⟩, by decide, by decide⟩

theorem length_xorBytes_iv {block : Bytes}
    (h : block.length = cbc.size) : (xorBytes iv.bytes block).length = cbc.size := by
  rw [xorBytes, length_zipWith, iv.length_eq, h, min_self]

def encrypt : BlockFunction (FixedBytes cbc.size) where
  size := cbc.size
  size_pow := cbc.size_facts.1
  one_lt_size := cbc.size_facts.2.1
  size_le := cbc.size_facts.2.2
  step := cbc.encryptStep
  length_step iv _ h := cbc.length_encryptBlock _ (cbc.length_xorBytes_iv iv h)

def decrypt : BlockFunction (FixedBytes cbc.size) where
  size := cbc.size
  size_pow := cbc.size_facts.1
  one_lt_size := cbc.size_facts.2.1
  size_le := cbc.size_facts.2.2
  step := cbc.decryptStep
  length_step iv _ h := cbc.length_xorBytes_iv iv (cbc.length_decryptBlock _ h)

def blockCipher : BlockCipher (FixedBytes cbc.size) (FixedBytes cbc.size) where
  encrypt := cbc.encrypt
  decrypt := cbc.decrypt
  size_eq := rfl
  related iv iv' := iv = iv'
  inverse := by
    rintro iv - block rfl hblock
    have hblock' : block.length = cbc.size := hblock
    have hxor := cbc.length_xorBytes_iv iv hblock'
    refine ⟨?_, rfl⟩
    change xorBytes iv.bytes (cbc.decryptBlock (cbc.encryptBlock (xorBytes iv.bytes block))) = block
    rw [cbc.decrypt_encrypt _ hxor, xorBytes_xorBytes (by rw [hblock', iv.length_eq])]

end CbcCipher

/-- A MAC with a key: `HMAC`, and the function `EVP_tls_cbc_digest_record` of the header, the
    decrypted record, and the length of the data in it. -/
structure TlsMac where
  size : Nat
  size_eq : size = 20 ∨ size = 32 ∨ size = 48
  hmac : Bytes → Bytes
  length_hmac : ∀ message, (hmac message).length = size
  digestRecord : Bytes → Bytes → Nat → Bytes
  digestRecord_eq : ∀ header record dataLen, dataLen ≤ record.length →
    digestRecord header record dataLen = hmac (header ++ record.take dataLen)

def mask8 (condition : Bool) : UInt8 := if condition then 0xff else 0

/-- `EVP_tls_cbc_remove_padding`: a mask for the right padding, and the length without it. -/
def evpTlsCbcRemovePadding (inp : Bytes) (macSize : Nat) : Option (UInt64 × Nat) :=
  let overhead := 1 + macSize
  if overhead > inp.length then none
  else
    let paddingLength := inp.getD (inp.length - 1) 0
    let good := maskW (decide (overhead + paddingLength.toNat ≤ inp.length))
    let toCheck := if 256 > inp.length then inp.length else 256
    let good := (range toCheck).foldl (fun good i =>
      let mask := mask8 (decide (i ≤ paddingLength.toNat))
      let b := inp.getD (inp.length - 1 - i) 0
      good &&& ~~~(mask &&& (paddingLength ^^^ b)).toUInt64) good
    let good := maskW (good &&& 0xff == 0xff)
    let removed := good &&& (paddingLength.toUInt64 + 1)
    some (good, inp.length - removed.toNat)

/-- The variables of the first loop of `EVP_tls_cbc_copy_mac`. -/
structure CopyMacState where
  j : Nat
  macStarted : UInt8
  rotatedMac : Bytes
  rotateOffset : Nat

/-- A round of the first loop of `EVP_tls_cbc_copy_mac`. -/
def copyMacStep (mdSize : Nat) (inp : Bytes) (macStart macEnd : Nat) (state : CopyMacState)
    (i : Nat) : CopyMacState :=
  let j := if state.j ≥ mdSize then state.j - mdSize else state.j
  let isMacStart := decide (i = macStart)
  let macStarted := state.macStarted ||| mask8 isMacStart
  let macEnded := mask8 (decide (i ≥ macEnd))
  { j := j + 1
    macStarted
    rotatedMac := state.rotatedMac.set j
      (state.rotatedMac.getD j 0 ||| (inp.getD i 0 &&& macStarted &&& ~~~macEnded))
    rotateOffset := state.rotateOffset ||| (if isMacStart then j else 0) }

/-- A step of the rotation, by `offset` if the last bit of `rotateOffset` is set: `j` is ahead of
    `i` by `offset`, and wraps. -/
def rotateStep (mdSize : Nat) (rotatedMac : Bytes) (offset rotateOffset : Nat) : Bytes :=
  let skipRotate := rotateOffset &&& 1 == 0
  (range mdSize).map fun i =>
    let j := if offset + i ≥ mdSize then offset + i - mdSize else offset + i
    if skipRotate then rotatedMac.getD i 0 else rotatedMac.getD j 0

/-- The rotation of `EVP_tls_cbc_copy_mac`. -/
def rotateLoop (mdSize : Nat) : (rounds : Nat) → Bytes → (offset rotateOffset : Nat) → Bytes
  | 0, rotatedMac, _, _ => rotatedMac
  | rounds + 1, rotatedMac, offset, rotateOffset =>
    if offset < mdSize then
      rotateLoop mdSize rounds (rotateStep mdSize rotatedMac offset rotateOffset) (offset <<< 1)
        (rotateOffset >>> 1)
    else rotatedMac

/-- `EVP_tls_cbc_copy_mac`, where the MAC ends at `inLen`.  The offset of the rotation doubles, so
    that it has as many rounds as the MAC has bytes at most. -/
def evpTlsCbcCopyMac (mdSize : Nat) (inp : Bytes) (inLen : Nat) : Bytes :=
  let origLen := inp.length
  let macEnd := inLen
  let macStart := macEnd - mdSize
  let scanStart := if origLen > mdSize + 255 + 1 then origLen - (mdSize + 255 + 1) else 0
  let state := (range' scanStart (origLen - scanStart)).foldl
    (copyMacStep mdSize inp macStart macEnd) ⟨0, 0, replicate mdSize 0, 0⟩
  rotateLoop mdSize mdSize state.rotatedMac 1 state.rotateOffset

/-! ### Sealing and opening -/

structure AeadTlsCtx (cbc : CbcCipher) where
  encrypting : Bool
  cipherCtx : EvpCipherCtx (FixedBytes cbc.size)
  implicitIv : Bool

section

variable {cbc : CbcCipher} (mac : TlsMac)
variable (ctx : AeadTlsCtx cbc)

def AeadTlsCtx.nonceLength : Nat := if ctx.implicitIv then 0 else cbc.size

def lengthBytes (len : Nat) : Bytes := [UInt8.ofNat (len >>> 8), UInt8.ofNat len]

/-- `EVP_EncryptInit_ex` or `EVP_DecryptInit_ex` with a new initialisation vector only, if it is
    explicit. -/
def AeadTlsCtx.setIv (nonce : Bytes) : EvpCipherCtx (FixedBytes cbc.size) :=
  if ctx.implicitIv then ctx.cipherCtx
  else
    { ctx.cipherCtx with
      cipherData := cbc.chain ctx.cipherCtx.cipherData nonce
      buf := []
      finalUsed := false
      poisoned := false }

def aeadTlsTagLen (cbc : CbcCipher) (inLen : Nat) : Nat :=
  let padLen := cbc.size - (inLen + mac.size) % cbc.size
  mac.size + padLen

def earlyMacLen (cbc : CbcCipher) (inLen : Nat) : Nat := (cbc.size - inLen % cbc.size) % cbc.size

variable (cipherCtx : EvpCipherCtx (FixedBytes cbc.size))

/-- The early part of the MAC: what is written to the end of `out` and to the start of `out_tag`. -/
def sealEarlyMac (macBytes : Bytes)
    (early : Nat) : Option (Bytes × Bytes) × EvpCipherCtx (FixedBytes cbc.size) :=
  if early ≠ 0 then
    match cbc.encrypt.evp.evpEncryptUpdate cipherCtx macBytes early with
    | (none, cipherCtx) => (none, cipherCtx)
    | (some buf, cipherCtx) =>
      (some (buf.take (cbc.size - early), (buf.drop (cbc.size - early)).take early), cipherCtx)
  else (some ([], []), cipherCtx)

/-- `aead_tls_seal_scatter` once the arguments are checked: what is written to `out` and to
    `out_tag`. -/
def sealRecord (inp macBytes : Bytes) :
    Option (Bytes × Bytes) × EvpCipherCtx (FixedBytes cbc.size) :=
  match cbc.encrypt.evp.evpEncryptUpdate cipherCtx inp inp.length with
  | (none, cipherCtx) => (none, cipherCtx)
  | (some out, cipherCtx) =>
    let early := earlyMacLen cbc inp.length
    match sealEarlyMac cipherCtx macBytes early with
    | (none, cipherCtx) => (none, cipherCtx)
    | (some (outEnd, tagStart), cipherCtx) =>
      match cbc.encrypt.evp.evpEncryptUpdate cipherCtx (macBytes.drop early)
          ↑(macBytes.length - early) with
      | (none, cipherCtx) => (none, cipherCtx)
      | (some tagMac, cipherCtx) =>
        let paddingLen := cbc.size - (inp.length + macBytes.length) % cbc.size
        let padding := replicate paddingLen (UInt8.ofNat (paddingLen - 1))
        match cbc.encrypt.evp.evpEncryptUpdate cipherCtx padding paddingLen with
        | (none, cipherCtx) => (none, cipherCtx)
        | (some tagPadding, cipherCtx) =>
          match cbc.encrypt.evp.evpEncryptFinal cipherCtx with
          | (none, cipherCtx) => (none, cipherCtx)
          | (some tagFinal, cipherCtx) =>
            (some (out ++ outEnd, tagStart ++ tagMac ++ tagPadding ++ tagFinal), cipherCtx)

def aeadTlsSealScatter (maxOutTagLen : Nat) (nonce inp ad : Bytes) :
    Option (Bytes × Bytes) × AeadTlsCtx cbc :=
  if !ctx.encrypting then (none, ctx)
  else if inp.length > INT_MAX then (none, ctx)
  else if maxOutTagLen < aeadTlsTagLen mac cbc inp.length then (none, ctx)
  else if nonce.length ≠ ctx.nonceLength then (none, ctx)
  else if ad.length ≠ 11 then (none, ctx)
  else
    let macBytes := mac.hmac (ad ++ lengthBytes inp.length ++ inp)
    let (result, cipherCtx) := sealRecord (ctx.setIv nonce) inp macBytes
    (result, { ctx with cipherCtx })

/-- `aead_tls_open` once the record is decrypted. -/
def openRecord (record ad : Bytes) : Option Bytes :=
  match evpTlsCbcRemovePadding record mac.size with
  | none => none
  | some (paddingOk, dataPlusMacLen) =>
    let dataLen := dataPlusMacLen - mac.size
    let adFixed := ad ++ lengthBytes dataLen
    let macBytes := mac.digestRecord adFixed record dataLen
    let recordMac := evpTlsCbcCopyMac mac.size record dataPlusMacLen
    let good := maskW (recordMac == macBytes)
    let good := good &&& paddingOk
    if good = 0 then none else some (record.take dataLen)

/-- `aead_tls_open` once the arguments are checked. -/
def decryptRecord (inp ad : Bytes) : Option Bytes × EvpCipherCtx (FixedBytes cbc.size) :=
  match cbc.decrypt.evp.evpDecryptUpdate cipherCtx inp inp.length with
  | (none, cipherCtx) => (none, cipherCtx)
  | (some out, cipherCtx) =>
    match cbc.decrypt.evp.evpDecryptFinal cipherCtx with
    | (none, cipherCtx) => (none, cipherCtx)
    | (some rest, cipherCtx) => (openRecord mac (out ++ rest) ad, cipherCtx)

def aeadTlsOpen (maxOutLen : Nat) (nonce inp ad : Bytes) : Option Bytes × AeadTlsCtx cbc :=
  if ctx.encrypting then (none, ctx)
  else if inp.length < mac.size then (none, ctx)
  else if maxOutLen < inp.length then (none, ctx)
  else if nonce.length ≠ ctx.nonceLength then (none, ctx)
  else if ad.length ≠ 11 then (none, ctx)
  else if inp.length > INT_MAX then (none, ctx)
  else
    -- a rejected record can leave a partial block in the buffer
    let (result, cipherCtx) := decryptRecord mac { ctx.setIv nonce with buf := [] } inp ad
    (result, { ctx with cipherCtx })

end

theorem and_maskW_true (word : UInt64) : maskW true &&& word = word := UInt64.neg_one_and

theorem mask8_and_eq_zero_iff (condition : Bool) (byte : UInt8) :
    mask8 condition &&& byte = 0 ↔ (condition = true → byte = 0) := by
  cases condition with
  | false => exact ⟨fun _ h => absurd h Bool.false_ne_true, fun _ => UInt8.zero_and⟩
  | true =>
    rw [show mask8 true &&& byte = byte from UInt8.neg_one_and]
    exact ⟨fun h _ => h, fun h => h rfl⟩

theorem low_byte_eq_iff (word : UInt64) : word &&& 0xff = 0xff ↔ word.toUInt8 = 0xff := by
  rw [← UInt64.toNat_inj, ← UInt8.toNat_inj, UInt64.toNat_and, UInt64.toNat_toUInt8]
  have hmod : word.toNat &&& (0xff : UInt64).toNat = word.toNat % 2 ^ 8 :=
    and_two_pow_sub_one_eq_mod word.toNat 8
  rw [hmod]
  rfl

/-- A round of the check keeps the lower eight bits exactly if the byte is zero. -/
theorem low_byte_and_not_iff (word : UInt64) (byte : UInt8) :
    (word &&& ~~~byte.toUInt64).toUInt8 = 0xff ↔ word.toUInt8 = 0xff ∧ byte = 0 := by
  have hnot : ∀ byte : UInt8, ~~~byte = -1 ↔ byte = 0 := forall_byte (by decide +kernel)
  rw [UInt64.toUInt8_and, UInt64.toUInt8_not, UInt8.toUInt8_toUInt64, ← hnot byte]
  exact UInt8.and_eq_neg_one_iff

/-- The loop of `EVP_tls_cbc_remove_padding`. -/
theorem padding_loop_iff (inp : Bytes) (paddingLength : UInt8) (word : UInt64) (rounds : Nat) :
    ((range rounds).foldl (fun good i => good &&& ~~~(mask8 (decide (i ≤ paddingLength.toNat)) &&&
          (paddingLength ^^^ inp.getD (inp.length - 1 - i) 0)).toUInt64) word).toUInt8 = 0xff ↔
      word.toUInt8 = 0xff ∧ ∀ i < rounds, i ≤ paddingLength.toNat →
        inp.getD (inp.length - 1 - i) 0 = paddingLength := by
  induction rounds with
  | zero =>
    rw [range_zero, foldl_nil]
    exact ⟨fun h => ⟨h, fun i hi => absurd hi (not_lt_zero i)⟩, fun h => h.1⟩
  | succ rounds ih =>
    rw [range_succ, foldl_append, foldl_cons, foldl_nil, low_byte_and_not_iff,
      ih, mask8_and_eq_zero_iff, decide_eq_true_eq, UInt8.xor_eq_zero_iff, and_assoc,
      eq_comm (a := paddingLength)]
    constructor
    · rintro ⟨hword, hbefore, hlast⟩
      refine ⟨hword, ?_⟩
      intro i hi hle
      rcases Nat.lt_succ_iff_lt_or_eq.mp hi with hlt | rfl
      · exact hbefore i hlt hle
      · exact hlast hle
    · rintro ⟨hword, hall⟩
      exact ⟨hword, fun i hi => hall i (lt_succ_of_lt hi), hall rounds (Nat.lt_succ_self _)⟩

theorem getD_padded (front : Bytes) {count i : Nat} (byte : UInt8) (hi : i < count) :
    (front ++ replicate count byte).getD
      ((front ++ replicate count byte).length - 1 - i) 0 = byte := by
  have hlength : (front ++ replicate count byte).length = front.length + count := by
    rw [length_append, length_replicate]
  rw [hlength, getD_append_right _ _ _ _ (by omega), getD_replicate _ (by omega)]

variable {inp : Bytes}

theorem padded_of_getD {count : Nat} {byte : UInt8} (hcount : count ≤ inp.length)
    (h : ∀ i < count, inp.getD (inp.length - 1 - i) 0 = byte) :
    inp = inp.take (inp.length - count) ++ replicate count byte := by
  have hdrop : inp.drop (inp.length - count) = replicate count byte := by
    apply ext_getElem
    · rw [length_drop, length_replicate]
      omega
    · intro i hi hi'
      rw [length_replicate] at hi'
      have hbyte := h (count - 1 - i) (by omega)
      rw [getD_eq_getElem _ _ (by omega)] at hbyte
      rw [getElem_drop, getElem_replicate, ← hbyte]
      congr 1
      omega
  rw [← hdrop, take_append_drop]

/-- The check of `EVP_tls_cbc_remove_padding`, with the result as a mask. -/
theorem evpTlsCbcRemovePadding_eq {macSize : Nat} (h : 1 + macSize ≤ inp.length)
    {paddingLength : UInt8} (hlast : inp.getD (inp.length - 1) 0 = paddingLength) (ok : Bool)
    (hok : ok = true ↔ 1 + macSize + paddingLength.toNat ≤ inp.length ∧
      ∀ i < paddingLength.toNat + 1, inp.getD (inp.length - 1 - i) 0 = paddingLength) :
    evpTlsCbcRemovePadding inp macSize =
      some (maskW ok, inp.length - if ok then paddingLength.toNat + 1 else 0) := by
  have hword : ∀ condition, (maskW condition).toUInt8 = 0xff ↔ condition = true := by decide
  have hsmall := paddingLength.toNat_lt
  have hchecked : (if 256 > inp.length then inp.length else 256) = min 256 inp.length := by
    rw [min_def]
    split <;> split <;> omega
  unfold evpTlsCbcRemovePadding
  rw [if_neg (by omega)]
  dsimp only
  rw [hlast, hchecked]
  have hgood : ∀ word : UInt64, (word.toUInt8 = 0xff ↔ ok = true) →
      maskW (word &&& 0xff == 0xff) = maskW ok := by
    intro word hiff
    congr 1
    rw [Bool.eq_iff_iff, beq_iff_eq, low_byte_eq_iff, hiff]
  rw [hgood]
  · cases ok with
    | false => rw [show maskW false &&& _ = 0 from UInt64.zero_and]; rfl
    | true =>
      rw [and_maskW_true, UInt64.toNat_add, UInt8.toNat_toUInt64, if_pos rfl,
        Nat.mod_eq_of_lt (by change _ + 1 < _; omega)]
      rfl
  · rw [padding_loop_iff, hword, decide_eq_true_eq, hok]
    refine and_congr_right fun hfits => ?_
    constructor
    · intro hall i hi
      exact hall i (by omega) (by omega)
    · intro hall i _ hi
      exact hall i (by omega)

theorem evpTlsCbcRemovePadding_padded {front : Bytes} {macSize : Nat} (h : macSize ≤ front.length)
    (byte : UInt8) : evpTlsCbcRemovePadding (front ++ replicate (byte.toNat + 1) byte) macSize =
      some (maskW true, front.length) := by
  have hlength : (front ++ replicate (byte.toNat + 1) byte).length =
      front.length + (byte.toNat + 1) := by
    rw [length_append, length_replicate]
  have hbytes := fun i (hi : i < byte.toNat + 1) => getD_padded front byte hi
  rw [evpTlsCbcRemovePadding_eq (by omega) (hbytes 0 (Nat.succ_pos _)) true
    ⟨fun _ => ⟨by omega, hbytes⟩, fun _ => rfl⟩, if_pos rfl, hlength, Nat.add_sub_cancel]

theorem evpTlsCbcRemovePadding_cases (inp : Bytes) (macSize : Nat) :
    evpTlsCbcRemovePadding inp macSize = none ∨
    (∃ len, evpTlsCbcRemovePadding inp macSize = some (0, len)) ∨
    ∃ (front : Bytes) (byte : UInt8), macSize ≤ front.length ∧
      inp = front ++ replicate (byte.toNat + 1) byte := by
  by_cases hshort : 1 + macSize > inp.length
  · left
    unfold evpTlsCbcRemovePadding
    rw [if_pos hshort]
  right
  generalize hlast : inp.getD (inp.length - 1) 0 = paddingLength
  by_cases hok : 1 + macSize + paddingLength.toNat ≤ inp.length ∧
      ∀ i < paddingLength.toNat + 1, inp.getD (inp.length - 1 - i) 0 = paddingLength
  · right
    refine ⟨_, paddingLength, ?_, padded_of_getD (by omega) hok.2⟩
    rw [length_take]
    omega
  · left
    exact ⟨_, evpTlsCbcRemovePadding_eq (by omega) hlast false
      ⟨fun h => absurd h Bool.false_ne_true, fun h => absurd h hok⟩⟩

section CopyMac

variable {mdSize : Nat}
variable {rotatedMac : Bytes}

theorem rotateStep_eq (hlength : rotatedMac.length = mdSize) {offset : Nat}
    (hoffset : offset < mdSize) (rotateOffset : Nat) :
    rotateStep mdSize rotatedMac offset rotateOffset =
      rotatedMac.rotate (offset * (rotateOffset % 2)) := by
  have hbit : rotateOffset &&& 1 = rotateOffset % 2 := and_one_is_mod rotateOffset
  unfold rotateStep
  rw [hbit]
  rcases mod_two_eq_zero_or_one rotateOffset with hzero | hone
  · rw [hzero, Nat.mul_zero, rotate_zero]
    apply ext_getElem
    · rw [length_map, length_range, hlength]
    · intro i _ hi
      rw [getElem_map, getElem_range, ← getD_eq_getElem _ 0 hi]
      rfl
  · rw [hone, mul_one]
    apply ext_getElem
    · rw [length_map, length_range, length_rotate, hlength]
    · intro i hi _
      rw [length_map, length_range] at hi
      have hj : (if offset + i ≥ mdSize then offset + i - mdSize else offset + i) =
          (i + offset) % rotatedMac.length := by
        rw [hlength, add_comm i offset]
        by_cases hwrap : offset + i ≥ mdSize
        · rw [if_pos hwrap, mod_eq_sub_mod hwrap, Nat.mod_eq_of_lt (by omega)]
        · rw [if_neg hwrap, Nat.mod_eq_of_lt (by omega)]
      rw [getElem_map, getElem_range, getElem_rotate,
        ← getD_eq_getElem _ 0, ← hj]
      rfl

/-- **The rotation.**  The steps together rotate by `offset * rotateOffset`. -/
theorem rotateLoop_eq (rounds : Nat) (hlength : rotatedMac.length = mdSize)
    {offset rotateOffset : Nat} (hrounds : mdSize ≤ offset * 2 ^ rounds)
    (hoffset : offset * rotateOffset < mdSize) :
    rotateLoop mdSize rounds rotatedMac offset rotateOffset =
      rotatedMac.rotate (offset * rotateOffset) := by
  -- once the offset is past the end, no bit is left
  have hend : ∀ {offset rotateOffset : Nat}, offset * rotateOffset < mdSize → mdSize ≤ offset →
      offset * rotateOffset = 0 := by
    intro offset rotateOffset hlt hle
    rcases Nat.eq_zero_or_pos rotateOffset with rfl | hpos
    · exact Nat.mul_zero offset
    · have hmul := Nat.le_mul_of_pos_right offset hpos
      omega
  induction rounds generalizing rotatedMac offset rotateOffset with
  | zero =>
    rw [hend hoffset (by omega), rotate_zero]
    rfl
  | succ rounds ih =>
    unfold rotateLoop
    by_cases hlt : offset < mdSize
    · have hhalf : offset * (rotateOffset % 2) + (offset <<< 1) * (rotateOffset >>> 1) =
          offset * rotateOffset := by
        rw [shiftLeft_eq, shiftRight_eq_div_pow, pow_one]
        calc offset * (rotateOffset % 2) + offset * 2 * (rotateOffset / 2)
            = offset * (rotateOffset % 2 + 2 * (rotateOffset / 2)) := by ring
          _ = offset * rotateOffset := by rw [mod_add_div]
      rw [if_pos hlt, rotateStep_eq hlength hlt, ih, rotate_rotate, hhalf]
      · rw [length_rotate, hlength]
      · rw [shiftLeft_eq]
        rw [pow_succ] at hrounds
        calc mdSize ≤ offset * (2 ^ rounds * 2) := hrounds
          _ = offset * 2 ^ 1 * 2 ^ rounds := by ring
      · omega
    · rw [if_neg hlt, hend hoffset (by omega), rotate_zero]

/-- The variables of the first loop before the index `i`, if the scan starts at `start`. -/
structure CopyMacOk (mdSize : Nat) (inp : Bytes) (start macStart i : Nat) (state : CopyMacState) :
    Prop where
  wraps : state.j ≤ mdSize ∧ state.j % mdSize = (i - start) % mdSize
  started : state.macStarted = mask8 (decide (macStart < i))
  length : state.rotatedMac.length = mdSize
  bytes : ∀ t < mdSize, state.rotatedMac.getD ((macStart - start + t) % mdSize) 0 =
    if macStart + t < i then inp.getD (macStart + t) 0 else 0
  offset : state.rotateOffset = if macStart < i then (macStart - start) % mdSize else 0

theorem mask8_or (a b : Bool) : mask8 a ||| mask8 b = mask8 (a || b) := by
  cases a <;> cases b <;> rfl

theorem masked_byte (byte : UInt8) (started ended : Bool) :
    byte &&& mask8 started &&& ~~~mask8 ended = if started && !ended then byte else 0 := by
  have hones : byte &&& 0xff = byte := UInt8.and_neg_one
  have hzero : byte &&& 0 = 0 := UInt8.and_zero
  cases started with
  | false => rw [show byte &&& mask8 false = 0 from hzero, UInt8.zero_and]; rfl
  | true =>
    rw [show byte &&& mask8 true = byte from hones]
    cases ended with
    | false => exact hones
    | true => exact hzero

/-- The byte at `place` of the MAC changes only when the scan is there. -/
theorem mac_bytes_step {shift macStart i place : Nat} {byte : UInt8}
    (hpos : 0 < mdSize) (hlength : rotatedMac.length = mdSize)
    (hplace : macStart ≤ i → place = (shift + (i - macStart)) % mdSize) (hlt : place < mdSize)
    (hbyte : byte = if macStart ≤ i ∧ i < macStart + mdSize then inp.getD i 0 else 0)
    (h : ∀ t < mdSize, rotatedMac.getD ((shift + t) % mdSize) 0 =
      if macStart + t < i then inp.getD (macStart + t) 0 else 0) :
    ∀ t < mdSize, (rotatedMac.set place (rotatedMac.getD place 0 ||| byte)).getD
        ((shift + t) % mdSize) 0 =
      if macStart + t < i + 1 then inp.getD (macStart + t) 0 else 0 := by
  intro t ht
  have hbound := Nat.mod_lt (shift + t) hpos
  by_cases hhere : i = macStart + t
  · subst hhere
    have hindex : place = (shift + t) % mdSize := by
      rw [hplace (Nat.le_add_right _ _), Nat.add_sub_cancel_left]
    rw [hbyte, if_pos ⟨Nat.le_add_right _ _, by omega⟩, ← hindex,
      getD_eq_getElem _ _ (by rw [length_set]; omega), getElem_set_self,
      hindex, h t ht, if_neg (Nat.lt_irrefl _), if_pos (Nat.lt_succ_self _), UInt8.zero_or]
  · have hiff : macStart + t < i + 1 ↔ macStart + t < i := by omega
    simp only [hiff]
    rw [← h t ht]
    by_cases hmac : macStart ≤ i ∧ i < macStart + mdSize
    · have hne : place ≠ (shift + t) % mdSize := by
        rw [hplace hmac.1]
        intro heq
        have hmod := Nat.ModEq.add_left_cancel' shift (show _ ≡ _ [MOD mdSize] from heq)
        have := hmod.eq_of_lt_of_lt (by omega) ht
        omega
      rw [getD_eq_getElem _ _ (by rw [length_set]; omega),
        getElem_set_ne hne, getD_eq_getElem _ _ (hbound.trans_eq hlength.symm)]
    · rw [hbyte, if_neg hmac, UInt8.or_zero, getD_eq_getElem _ _ (by omega : place < _),
        set_getElem_self]

theorem CopyMacOk.step {start macStart i : Nat} {state : CopyMacState}
    (hpos : 0 < mdSize) (hstart : start ≤ macStart) (hi : start ≤ i)
    (h : CopyMacOk mdSize inp start macStart i state) : CopyMacOk mdSize inp start macStart (i + 1)
      (copyMacStep mdSize inp macStart (macStart + mdSize) state i) := by
  obtain ⟨hle, hmod⟩ := h.wraps
  have hj : (if state.j ≥ mdSize then state.j - mdSize else state.j) = (i - start) % mdSize := by
    by_cases hwrap : state.j ≥ mdSize
    · rw [if_pos hwrap, ← hmod, show state.j = mdSize by omega, Nat.mod_self, Nat.sub_self]
    · rw [if_neg hwrap, ← hmod, Nat.mod_eq_of_lt (by omega)]
  have hlt := Nat.mod_lt (i - start) hpos
  have hnext : i + 1 - start = i - start + 1 := by omega
  have hstarted : state.macStarted ||| mask8 (decide (i = macStart)) =
      mask8 (decide (macStart < i + 1)) := by
    rw [h.started, mask8_or, ← Bool.decide_or]
    congr 1
    exact decide_eq_decide.mpr (by omega)
  unfold copyMacStep
  dsimp only
  rw [hj, hstarted]
  constructor
  · refine ⟨hlt, ?_⟩
    rw [hnext, mod_add_mod]
  · rfl
  · rw [length_set, h.length]
  · apply mac_bytes_step hpos h.length _ hlt _ h.bytes
    · intro hle
      congr 1
      omega
    · rw [masked_byte]
      congr 1
      simp only [Bool.and_eq_true, Bool.not_eq_true', decide_eq_true_eq, decide_eq_false_iff_not,
        eq_iff_iff]
      omega
  · rw [h.offset]
    by_cases hhere : i = macStart
    · subst hhere
      rw [if_neg (Nat.lt_irrefl _), if_pos (Nat.lt_succ_self _), decide_eq_true rfl, if_pos rfl,
        zero_or]
    · have hiff : macStart < i + 1 ↔ macStart < i := by omega
      rw [decide_eq_false hhere, if_off, or_zero]
      simp [hiff]

theorem CopyMacOk.scan (inp : Bytes) {start macStart : Nat} (hpos : 0 < mdSize)
    (hstart : start ≤ macStart) (count : Nat) : CopyMacOk mdSize inp start macStart (start + count)
      ((range' start count).foldl (copyMacStep mdSize inp macStart (macStart + mdSize))
        ⟨0, 0, replicate mdSize 0, 0⟩) := by
  induction count with
  | zero =>
    constructor
    · exact ⟨Nat.zero_le _, by rw [Nat.add_zero, Nat.sub_self]; rfl⟩
    · rw [decide_eq_false (by omega)]
      rfl
    · exact length_replicate
    · intro t ht
      rw [if_neg (by omega)]
      exact getD_replicate _ (Nat.mod_lt _ hpos)
    · rw [if_neg (by omega)]
      rfl
  | succ count ih =>
    rw [range'_concat, foldl_append, foldl_cons, foldl_nil, Nat.one_mul]
    exact ih.step hpos hstart (Nat.le_add_right start count)

/-- **Copying the MAC.**  Where the MAC can be, within 256 bytes of the end, it is copied. -/
theorem evpTlsCbcCopyMac_eq {macEnd : Nat} (hpos : 0 < mdSize)
    (hmac : mdSize ≤ macEnd) (hend : macEnd ≤ inp.length) (hnear : inp.length ≤ macEnd + 256) :
    evpTlsCbcCopyMac mdSize inp macEnd = (inp.drop (macEnd - mdSize)).take mdSize := by
  obtain ⟨macStart, rfl⟩ := Nat.exists_eq_add_of_le' hmac
  unfold evpTlsCbcCopyMac
  dsimp only
  rw [Nat.add_sub_cancel]
  generalize hscan : (if inp.length > mdSize + 255 + 1 then inp.length - (mdSize + 255 + 1)
    else 0) = start
  have hstart : start ≤ macStart ∧ start ≤ inp.length := by
    split at hscan <;> omega
  have hstate := CopyMacOk.scan inp hpos hstart.1 (inp.length - start)
  generalize (range' start (inp.length - start)).foldl
    (copyMacStep mdSize inp macStart (macStart + mdSize)) ⟨0, 0, replicate mdSize 0, 0⟩ =
    state at hstate ⊢
  rw [add_sub_of_le hstart.2] at hstate
  have hoffset := hstate.offset
  rw [if_pos (by omega)] at hoffset
  have hlt := Nat.mod_lt (macStart - start) hpos
  rw [rotateLoop_eq mdSize hstate.length (by rw [Nat.one_mul]; exact Nat.lt_two_pow_self.le)
    (by omega), Nat.one_mul]
  apply ext_getElem
  · rw [length_rotate, length_take, length_drop, hstate.length]
    omega
  · intro t ht ht'
    rw [length_rotate, hstate.length] at ht
    have hbyte := hstate.bytes t ht
    have hbound := (Nat.mod_lt (macStart - start + t) hpos).trans_eq hstate.length.symm
    rw [if_pos (by omega), getD_eq_getElem _ _ hbound,
      getD_eq_getElem _ _ (by omega)] at hbyte
    rw [getElem_rotate, getElem_take, getElem_drop, ← hbyte]
    congr 1
    rw [hstate.length, hoffset, add_mod_mod, add_comm]

end CopyMac

/-! ### Records -/

variable (mac : TlsMac)

def TlsMac.plaintext (ad data : Bytes) (byte : UInt8) : Bytes :=
  data ++ mac.hmac (ad ++ lengthBytes data.length ++ data) ++
    replicate (byte.toNat + 1) byte

theorem TlsMac.size_pos : 0 < mac.size := by
  rcases mac.size_eq with h | h | h <;> omega

theorem TlsMac.length_plaintext (ad data : Bytes) (byte : UInt8) :
    (mac.plaintext ad data byte).length = data.length + mac.size + (byte.toNat + 1) := by
  unfold plaintext
  rw [length_append, length_append, mac.length_hmac, length_replicate]

theorem BlockFunction.length_apply {State : Type} (f : BlockFunction State) (state : State)
    {xs : Bytes} (hwhole : xs.length % f.size = 0) : (f.apply state xs).2.length = xs.length :=
  (length_stream f.size_pos f.length_step state xs).trans
    (Nat.mul_div_cancel' (Nat.dvd_of_mod_eq_zero hwhole))

theorem openRecord_padded {record front : Bytes} {byte : UInt8} (ad : Bytes)
    (hfront : mac.size ≤ front.length)
    (hrecord : record = front ++ replicate (byte.toNat + 1) byte) : openRecord mac record ad =
      if front.drop (front.length - mac.size) =
          mac.hmac (ad ++ lengthBytes (front.length - mac.size) ++
            front.take (front.length - mac.size)) then some (front.take (front.length - mac.size))
      else none := by
  have hlength : record.length = front.length + (byte.toNat + 1) := by
    rw [hrecord, length_append, length_replicate]
  have hsmall := byte.toNat_lt
  have htake : record.take (front.length - mac.size) = front.take (front.length - mac.size) := by
    rw [hrecord, take_append_of_le_length (sub_le _ _)]
  have hmac : (record.drop (front.length - mac.size)).take mac.size =
      front.drop (front.length - mac.size) := by
    rw [hrecord, drop_append_of_le_length (sub_le _ _), take_left']
    rw [length_drop]
    omega
  unfold openRecord
  rw [hrecord, evpTlsCbcRemovePadding_padded hfront, ← hrecord]
  dsimp only
  rw [mac.digestRecord_eq _ _ _ (by omega),
    evpTlsCbcCopyMac_eq mac.size_pos hfront (by omega) (by omega), hmac, htake]
  by_cases heq : front.drop (front.length - mac.size) =
      mac.hmac (ad ++ lengthBytes (front.length - mac.size) ++
        front.take (front.length - mac.size))
  · rw [if_pos heq, heq, beq_self_eq_true]
    exact if_neg (by decide)
  · rw [if_neg heq, beq_eq_false_iff_ne.mpr heq]
    exact if_pos (by decide)

/-- **Opening a decrypted record.**  It is accepted exactly if it ends with the MAC of its data and
    a padding. -/
theorem openRecord_eq_some_iff (record ad data : Bytes) :
    openRecord mac record ad = some data ↔ ∃ byte, record = mac.plaintext ad data byte := by
  constructor
  · intro hopen
    rcases evpTlsCbcRemovePadding_cases record mac.size with hnone | ⟨len, hzero⟩ |
      ⟨front, byte, hfront, hrecord⟩
    · unfold openRecord at hopen
      rw [hnone] at hopen
      cases hopen
    · unfold openRecord at hopen
      rw [hzero] at hopen
      dsimp only at hopen
      rw [UInt64.and_zero, if_pos rfl] at hopen
      cases hopen
    · rw [openRecord_padded mac ad hfront hrecord] at hopen
      obtain ⟨hmac, htake⟩ := Option.ite_none_right_eq_some.mp hopen
      have hdata := Option.some_inj.mp htake
      have hlength : data.length = front.length - mac.size := by
        rw [← hdata, length_take]
        omega
      refine ⟨byte, ?_⟩
      rw [hdata] at hmac
      unfold TlsMac.plaintext
      rw [hlength, ← hmac, ← hdata, take_append_drop]
      exact hrecord
  · rintro ⟨byte, hrecord⟩
    have hmac := mac.length_hmac (ad ++ lengthBytes data.length ++ data)
    have hlength : (data ++ mac.hmac (ad ++ lengthBytes data.length ++ data)).length - mac.size =
        data.length := by
      rw [length_append, hmac, Nat.add_sub_cancel]
    rw [openRecord_padded mac ad (by rw [length_append]; omega) hrecord, hlength,
      drop_left, take_left, if_pos rfl]

section

variable {cbc : CbcCipher} (mac : TlsMac)

/-- A context for explicit initialisation vectors, as `aead_tls_init` sets it up. -/
structure AeadTlsCtx.Ready (ctx : AeadTlsCtx cbc) (encrypting : Bool) : Prop where
  direction : ctx.encrypting = encrypting
  explicit : ctx.implicitIv = false
  noPadding : ctx.cipherCtx.noPadding = true

theorem CbcCipher.chain_bytes (iv next : FixedBytes cbc.size) : cbc.chain iv next.bytes = next :=
  dif_pos next.length_eq

def AeadTlsCtx.start (ctx : AeadTlsCtx cbc) (iv : FixedBytes cbc.size) :
    EvpCipherCtx (FixedBytes cbc.size) :=
  { ctx.cipherCtx with cipherData := iv, buf := [], finalUsed := false, poisoned := false }

variable {ctx : AeadTlsCtx cbc}

theorem AeadTlsCtx.Ready.setIv_eq {encrypting : Bool} (h : ctx.Ready encrypting)
    (iv : FixedBytes cbc.size) : ctx.setIv iv.bytes = ctx.start iv := by
  unfold setIv start
  rw [h.explicit, if_off, CbcCipher.chain_bytes]

theorem AeadTlsCtx.Ready.nonceLength_eq {encrypting : Bool} (h : ctx.Ready encrypting)
    (iv : FixedBytes cbc.size) : iv.bytes.length = ctx.nonceLength := by
  unfold nonceLength
  rw [h.explicit, if_off, iv.length_eq]

variable {State : Type} {inp : Bytes}
variable (f : BlockFunction State)

theorem evpDecrypt_noPadding {ctx : EvpCipherCtx State}
    (hpadding : ctx.noPadding = true) (hpoisoned : ctx.poisoned = false) (hbuf : ctx.buf = [])
    (hinp : 0 < inp.length) (hfits : inp.length + f.size ≤ INT_MAX) :
    f.evp.evpDecryptUpdate ctx inp inp.length =
        (some (f.apply ctx.cipherData inp).2, f.absorb ctx inp) ∧
      (f.evp.evpDecryptFinal (f.absorb ctx inp)).1 =
        if inp.length % f.size = 0 then some [] else none := by
  have hsize : f.evp.blockSize = f.size := rfl
  have hcustom : f.evp.customCipher = false := rfl
  constructor
  · unfold EvpCipher.evpDecryptUpdate
    rw [hpoisoned, if_off, hsize, if_neg (by omega), hcustom,
      if_off, if_neg (by omega), hpadding, if_pos rfl,
      f.evpEncryptUpdate_eq (by rw [hbuf]; exact f.size_pos) hpoisoned (le_refl _) hfits,
      take_length, BlockFunction.emit, hbuf, nil_append]
  · have hleft : (f.absorb ctx inp).buf.length = inp.length % f.size := by
      change (leftover f.size (ctx.buf ++ inp)).length = _
      rw [hbuf, nil_append, length_leftover f.size_pos]
    have hpoisoned' : (f.absorb ctx inp).poisoned = false := rfl
    have hpadding' : (f.absorb ctx inp).noPadding = true := hpadding
    unfold EvpCipher.evpDecryptFinal
    rw [hpoisoned', if_off, hcustom, if_off, hpadding',
      if_pos rfl, hleft]
    by_cases hwhole : inp.length % f.size = 0
    · rw [if_neg (not_not.mpr hwhole), if_pos hwhole]
    · rw [if_pos hwhole, if_neg hwhole]

variable {cipherCtx : EvpCipherCtx (FixedBytes cbc.size)}

theorem decryptRecord_eq (hpadding : cipherCtx.noPadding = true)
    (hpoisoned : cipherCtx.poisoned = false) (hbuf : cipherCtx.buf = []) (hinp : 0 < inp.length)
    (ad : Bytes) : (decryptRecord mac cipherCtx inp ad).1 =
      if inp.length + cbc.size ≤ INT_MAX ∧ inp.length % cbc.size = 0 then
        openRecord mac (cbc.decrypt.apply cipherCtx.cipherData inp).2 ad else none := by
  unfold decryptRecord
  by_cases hfits : inp.length + cbc.size ≤ INT_MAX
  · obtain ⟨hupdate, hfinal⟩ := evpDecrypt_noPadding cbc.decrypt hpadding hpoisoned hbuf hinp hfits
    rw [hupdate]
    dsimp only
    generalize cbc.decrypt.evp.evpDecryptFinal _ = result at hfinal ⊢
    obtain ⟨rest, cipherCtx'⟩ := result
    by_cases hwhole : inp.length % cbc.size = 0
    · rw [show rest = some [] from hfinal.trans (if_pos hwhole), if_pos ⟨hfits, hwhole⟩]
      dsimp only
      rw [append_nil]
    · rw [show rest = none from hfinal.trans (if_neg hwhole), if_neg fun hall => hwhole hall.2]
  · have hlong := cbc.decrypt.evpDecryptUpdate_long cipherCtx hfits
    generalize cbc.decrypt.evp.evpDecryptUpdate _ _ _ = result at hlong ⊢
    obtain ⟨out, cipherCtx'⟩ := result
    rw [show out = none from hlong, if_neg fun hall => hfits hall.1]

/-- **Opening.**  The record is opened if its length and that of the additional data are right, and
    its plaintext has the MAC and a padding. -/
theorem aeadTlsOpen_eq_some_iff (h : ctx.Ready false) {maxOutLen : Nat}
    (hout : inp.length ≤ maxOutLen) (iv : FixedBytes cbc.size) (ad data : Bytes) :
    (aeadTlsOpen mac ctx maxOutLen iv.bytes inp ad).1 = some data ↔
      ad.length = 11 ∧ (inp.length + cbc.size ≤ INT_MAX ∧ inp.length % cbc.size = 0) ∧
        ∃ byte, (cbc.decrypt.apply iv inp).2 = mac.plaintext ad data byte := by
  have hpos := mac.size_pos
  have hlength : inp.length % cbc.size = 0 →
      ∀ byte, (cbc.decrypt.apply iv inp).2 = mac.plaintext ad data byte →
        mac.size ≤ inp.length := by
    intro hwhole byte hplain
    have hlen := cbc.decrypt.length_apply iv hwhole
    rw [hplain, mac.length_plaintext] at hlen
    omega
  unfold aeadTlsOpen
  rw [h.direction, if_off]
  by_cases hmac : inp.length < mac.size
  · rw [if_pos hmac]
    refine iff_of_false nofun ?_
    rintro ⟨-, ⟨-, hwhole⟩, byte, hplain⟩
    have hle := hlength hwhole byte hplain
    omega
  rw [if_neg hmac, if_neg (by omega), if_neg (not_not.mpr (h.nonceLength_eq iv))]
  by_cases had : ad.length = 11
  · rw [if_neg (not_not.mpr had)]
    by_cases hmax : inp.length > INT_MAX
    · rw [if_pos hmax]
      exact iff_of_false nofun fun hall => by omega
    rw [if_neg hmax, h.setIv_eq]
    have hrecord := decryptRecord_eq mac (show (ctx.start iv).noPadding = true from h.noPadding)
      rfl rfl (by omega : 0 < inp.length) ad
    change (decryptRecord mac (ctx.start iv) inp ad).1 = _ ↔ _
    rw [hrecord, Option.ite_none_right_eq_some, openRecord_eq_some_iff]
    exact (and_iff_right had).symm
  · rw [if_pos had]
    exact iff_of_false nofun fun hall => had hall.1

def minimalPadding (cbc : CbcCipher) (inLen : Nat) : UInt8 :=
  UInt8.ofNat (cbc.size - (inLen + mac.size) % cbc.size - 1)

theorem minimalPadding_toNat (cbc : CbcCipher) (inLen : Nat) :
    (minimalPadding mac cbc inLen).toNat + 1 = cbc.size - (inLen + mac.size) % cbc.size := by
  have hpos : 0 < cbc.size := cbc.encrypt.size_pos
  have hlt := Nat.mod_lt (inLen + mac.size) hpos
  have hsmall : cbc.size ≤ 16 := by
    rcases cbc.size_eq with h | h <;> omega
  unfold minimalPadding
  rw [UInt8.toNat_ofNat_of_lt' (by change _ < 256; omega)]
  omega

theorem absorb_nil {ctx : EvpCipherCtx State}
    (hbuf : ctx.buf.length < f.size) (hpoisoned : ctx.poisoned = false) :
    f.absorb ctx [] = ctx ∧ f.emit ctx [] = [] := by
  unfold BlockFunction.absorb BlockFunction.emit
  rw [append_nil, leftover_of_lt hbuf,
    show f.apply ctx.cipherData ctx.buf = _ from stream_short hbuf ctx.cipherData, ← hpoisoned]
  exact ⟨rfl, rfl⟩

/-- The early part of the MAC completes a block, which is cut in two. -/
theorem sealEarlyMac_eq {inLen : Nat} (hbuf : cipherCtx.buf.length = inLen % cbc.size)
    (hpoisoned : cipherCtx.poisoned = false) {macBytes : Bytes} (hmac : cbc.size ≤ macBytes.length)
    (hfits : macBytes.length + cbc.size ≤ INT_MAX) :
    ∃ outEnd tagStart, sealEarlyMac cipherCtx macBytes (earlyMacLen cbc inLen) =
        (some (outEnd, tagStart),
          cbc.encrypt.absorb cipherCtx (macBytes.take (earlyMacLen cbc inLen))) ∧
      outEnd ++ tagStart = cbc.encrypt.emit cipherCtx (macBytes.take (earlyMacLen cbc inLen)) := by
  have hpos : 0 < cbc.size := cbc.encrypt.size_pos
  have hlt := Nat.mod_lt inLen hpos
  have hbuf' : cipherCtx.buf.length < cbc.encrypt.size := hbuf.trans_lt hlt
  unfold sealEarlyMac
  by_cases hzero : earlyMacLen cbc inLen = 0
  · obtain ⟨habsorb, hemit⟩ := absorb_nil cbc.encrypt hbuf' hpoisoned
    rw [hzero, take_zero, habsorb, hemit]
    exact ⟨[], [], rfl, rfl⟩
  · have hearly : earlyMacLen cbc inLen = cbc.size - inLen % cbc.size := by
      unfold earlyMacLen at hzero ⊢
      by_cases hwhole : inLen % cbc.size = 0
      · rw [hwhole, Nat.sub_zero, Nat.mod_self] at hzero
        exact absurd rfl hzero
      · exact Nat.mod_eq_of_lt (by omega)
    have hupdate := cbc.encrypt.evpEncryptUpdate_eq hbuf' hpoisoned
      (show earlyMacLen cbc inLen ≤ macBytes.length by omega)
      (show earlyMacLen cbc inLen + cbc.size ≤ INT_MAX by omega)
    have hlength : (cbc.encrypt.emit cipherCtx
        (macBytes.take (earlyMacLen cbc inLen))).length = cbc.size := by
      have hblock : (cipherCtx.buf ++ macBytes.take (earlyMacLen cbc inLen)).length = cbc.size := by
        rw [length_append, length_take, hbuf]
        omega
      refine (cbc.encrypt.length_apply _ ?_).trans hblock
      rw [hblock]
      exact Nat.mod_self cbc.size
    generalize cbc.encrypt.emit cipherCtx (macBytes.take (earlyMacLen cbc inLen)) = buf
      at hupdate hlength ⊢
    have htake : (buf.drop (cbc.size - earlyMacLen cbc inLen)).take (earlyMacLen cbc inLen) =
        buf.drop (cbc.size - earlyMacLen cbc inLen) := by
      apply take_of_length_le
      rw [length_drop]
      omega
    rw [if_pos hzero, hupdate]
    refine ⟨_, _, rfl, ?_⟩
    rw [htake, take_append_drop]

theorem evpEncryptUpdate_whole {ctx : EvpCipherCtx State}
    (hbuf : ctx.buf.length < f.size) (hpoisoned : ctx.poisoned = false) {n : Nat}
    (hn : n = inp.length) (hfits : inp.length + f.size ≤ INT_MAX) :
    f.evp.evpEncryptUpdate ctx inp n = (some (f.emit ctx inp), f.absorb ctx inp) := by
  subst hn
  rw [f.evpEncryptUpdate_eq hbuf hpoisoned le_rfl hfits, take_length]

/-- The end of an encryption of whole blocks, without the padding of the library. -/
theorem evpEncryptFinal_noPadding {ctx : EvpCipherCtx State}
    (hbuf : ctx.buf.length = 0) (hpadding : ctx.noPadding = true) (hpoisoned : ctx.poisoned = false)
    : f.evp.evpEncryptFinal ctx = (some [], ctx) := by
  have hsize : f.evp.blockSize = f.size := rfl
  have hcustom : f.evp.customCipher = false := rfl
  have hone := f.one_lt_size
  unfold EvpCipher.evpEncryptFinal
  rw [hpoisoned, if_off, hcustom, if_off, hsize,
    if_neg (by omega), hpadding, if_pos rfl, if_neg (not_not.mpr hbuf)]

theorem length_padded_record (cbc : CbcCipher) (inp macBytes : Bytes)
    (hmac : macBytes.length = mac.size) :
    (inp ++ macBytes ++ replicate ((minimalPadding mac cbc inp.length).toNat + 1)
      (minimalPadding mac cbc inp.length)).length % cbc.size = 0 := by
  have hpos : 0 < cbc.size := cbc.encrypt.size_pos
  have hlt := Nat.mod_lt (inp.length + mac.size) hpos
  have hdiv := div_add_mod (inp.length + mac.size) cbc.size
  have hlength : inp.length + mac.size + (cbc.size - (inp.length + mac.size) % cbc.size) =
      cbc.size * ((inp.length + mac.size) / cbc.size + 1) := by
    rw [mul_succ]
    omega
  rw [length_append, length_append, length_replicate, hmac, minimalPadding_toNat,
    hlength, mul_mod_right]

/-- **Sealing.**  The two outputs are the encryption of the data, the MAC and the padding. -/
theorem sealRecord_eq (hpadding : cipherCtx.noPadding = true)
    (hpoisoned : cipherCtx.poisoned = false) (hbuf : cipherCtx.buf = []) {macBytes : Bytes}
    (hmac : macBytes.length = mac.size) (hfits : inp.length + cbc.size ≤ INT_MAX) :
    ∃ out tag, (sealRecord cipherCtx inp macBytes).1 = some (out, tag) ∧
      out ++ tag = (cbc.encrypt.apply cipherCtx.cipherData (inp ++ macBytes ++
        replicate ((minimalPadding mac cbc inp.length).toNat + 1)
          (minimalPadding mac cbc inp.length))).2 := by
  have hsize : cbc.size ≤ 16 ∧ 16 ≤ macBytes.length ∧ macBytes.length ≤ 48 := by
    rcases cbc.size_eq with h | h <;> rcases mac.size_eq with h' | h' | h' <;> omega
  have hmax : 100 ≤ INT_MAX := by decide
  have hsame : cbc.encrypt.size = cbc.size := rfl
  have hcount := minimalPadding_toNat mac cbc inp.length
  have hwhole := length_padded_record mac cbc inp macBytes hmac
  generalize hpad : replicate ((minimalPadding mac cbc inp.length).toNat + 1)
    (minimalPadding mac cbc inp.length) = padding at hwhole ⊢
  have hpadding' : replicate (cbc.size - (inp.length + macBytes.length) % cbc.size)
      (UInt8.ofNat (cbc.size - (inp.length + macBytes.length) % cbc.size - 1)) = padding := by
    rw [← hpad, hcount, hmac]
    rfl
  have hpadLength : padding.length = cbc.size - (inp.length + macBytes.length) % cbc.size := by
    rw [← hpadding', length_replicate]
  -- the five calls
  have hdata := evpEncryptUpdate_whole cbc.encrypt (by rw [hbuf]; exact cbc.encrypt.size_pos)
    hpoisoned (rfl : inp.length = inp.length) hfits
  have hbuf₁ : (cbc.encrypt.absorb cipherCtx inp).buf.length = inp.length % cbc.size := by
    change (leftover _ (cipherCtx.buf ++ inp)).length = _
    rw [hbuf, nil_append, length_leftover cbc.encrypt.size_pos]
    rfl
  obtain ⟨outEnd, tagStart, hearly, hjoin⟩ := sealEarlyMac_eq hbuf₁ rfl
    (show cbc.size ≤ macBytes.length by omega) (by omega)
  generalize hearlyLen : earlyMacLen cbc inp.length = early at hearly hjoin
  have hrest := evpEncryptUpdate_whole cbc.encrypt
    (cbc.encrypt.absorb_buf_lt (cbc.encrypt.absorb cipherCtx inp) (macBytes.take early)) rfl
    (length_drop (l := macBytes) (i := early)).symm
    (by rw [length_drop]; omega)
  have hlast := evpEncryptUpdate_whole cbc.encrypt
    (cbc.encrypt.absorb_buf_lt (cbc.encrypt.absorb (cbc.encrypt.absorb cipherCtx inp)
      (macBytes.take early)) (macBytes.drop early)) rfl hpadLength.symm (by omega)
  have hparts : inp ++ (macBytes.take early ++ (macBytes.drop early ++ padding)) =
      inp ++ macBytes ++ padding := by
    rw [← append_assoc (macBytes.take early), take_append_drop, append_assoc]
  have hbuf₄ : (cbc.encrypt.absorb (cbc.encrypt.absorb (cbc.encrypt.absorb (cbc.encrypt.absorb
      cipherCtx inp) (macBytes.take early)) (macBytes.drop early)) padding).buf.length = 0 := by
    rw [← cbc.encrypt.absorb_append, ← cbc.encrypt.absorb_append, ← cbc.encrypt.absorb_append,
      hparts]
    change (leftover _ (cipherCtx.buf ++ _)).length = _
    rw [hbuf, nil_append, length_leftover cbc.encrypt.size_pos]
    exact hwhole
  unfold sealRecord
  rw [hdata]
  dsimp only
  rw [hearlyLen, hearly]
  dsimp only
  rw [hrest]
  dsimp only
  rw [hpadding', hlast]
  dsimp only
  rw [evpEncryptFinal_noPadding cbc.encrypt hbuf₄ hpadding rfl]
  refine ⟨_, _, rfl, ?_⟩
  have hemit : (cbc.encrypt.apply cipherCtx.cipherData (inp ++ macBytes ++ padding)).2 =
      cbc.encrypt.emit cipherCtx (inp ++ macBytes ++ padding) := by
    unfold BlockFunction.emit
    rw [hbuf, nil_append]
  rw [hemit, ← hparts, cbc.encrypt.emit_append, cbc.encrypt.emit_append, cbc.encrypt.emit_append,
    ← hjoin]
  simp

/-- The padding is the least one that fills whole blocks. -/
theorem minimalPadding_le (cbc : CbcCipher) (ad data : Bytes) {byte : UInt8}
    (h : (mac.plaintext ad data byte).length % cbc.size = 0) :
    minimalPadding mac cbc data.length ≤ byte := by
  have hcount := minimalPadding_toNat mac cbc data.length
  rw [mac.length_plaintext] at h
  rw [UInt8.le_iff_toNat_le]
  by_contra hlt
  have hsum : ((data.length + mac.size) % cbc.size + (byte.toNat + 1)) % cbc.size = 0 := by
    rw [mod_add_mod]
    exact h
  rw [Nat.mod_eq_of_lt (by omega)] at hsum
  omega

/-- **Sealing.**  The call succeeds on data of any length that the library encrypts at once. -/
theorem aeadTlsSealScatter_eq (h : ctx.Ready true) {data : Bytes} {maxOutTagLen : Nat}
    (hout : aeadTlsTagLen mac cbc data.length ≤ maxOutTagLen) (iv : FixedBytes cbc.size)
    (ad : Bytes) : (ad.length = 11 ∧ data.length + cbc.size ≤ INT_MAX →
      ∃ out tag, (aeadTlsSealScatter mac ctx maxOutTagLen iv.bytes data ad).1 = some (out, tag) ∧
        out ++ tag = (cbc.encrypt.apply iv
          (mac.plaintext ad data (minimalPadding mac cbc data.length))).2) ∧
    (¬ (ad.length = 11 ∧ data.length + cbc.size ≤ INT_MAX) →
      (aeadTlsSealScatter mac ctx maxOutTagLen iv.bytes data ad).1 = none) := by
  unfold aeadTlsSealScatter
  rw [h.direction, h.setIv_eq]
  constructor
  · rintro ⟨had, hfits⟩
    rw [if_neg (by decide), if_neg (by omega), if_neg (by omega),
      if_neg (not_not.mpr (h.nonceLength_eq iv)), if_neg (not_not.mpr had)]
    exact sealRecord_eq mac (show (ctx.start iv).noPadding = true from h.noPadding) rfl rfl
      (mac.length_hmac _) hfits
  · intro hnot
    rw [if_neg (by decide)]
    by_cases hmax : data.length > INT_MAX
    · rw [if_pos hmax]
    rw [if_neg hmax, if_neg (by omega), if_neg (not_not.mpr (h.nonceLength_eq iv))]
    by_cases had : ad.length = 11
    · rw [if_neg (not_not.mpr had)]
      have hlong := cbc.encrypt.evpEncryptUpdate_long (ctx.start iv)
        (show ¬ data.length + cbc.size ≤ INT_MAX from fun hfits => hnot ⟨had, hfits⟩)
      unfold sealRecord
      generalize cbc.encrypt.evp.evpEncryptUpdate (ctx.start iv) data _ = result at hlong ⊢
      obtain ⟨out, cipherCtx⟩ := result
      rw [show out = none from hlong]
    · rw [if_pos had]

end

def invertingCipher : CbcCipher where
  size := 8
  size_eq := .inl rfl
  encryptBlock := map (~~~ ·)
  decryptBlock := map (~~~ ·)
  length_encryptBlock := fun _ h => by rw [length_map, h]
  length_decryptBlock := fun _ h => by rw [length_map, h]
  decrypt_encrypt := by
    intro block _
    rw [map_map]
    exact (map_congr_left fun byte _ => UInt8.not_not).trans (map_id block)

def summingMac : TlsMac where
  size := 20
  size_eq := .inl rfl
  hmac := fun message => replicate 20 (message.foldl (· + ·) 0)
  length_hmac := fun _ => length_replicate
  digestRecord := fun header record dataLen =>
    replicate 20 ((header ++ record.take dataLen).foldl (· + ·) 0)
  digestRecord_eq := fun _ _ _ _ => rfl

theorem length_zeroIv : (replicate 8 (0 : UInt8)).length = 8 := rfl

def invertingCtx (encrypting : Bool) : AeadTlsCtx invertingCipher where
  encrypting
  cipherCtx := { evpCipherInit ⟨replicate 8 0, length_zeroIv⟩ with noPadding := true }
  implicitIv := false

theorem invertingCtx_ready (encrypting : Bool) : (invertingCtx encrypting).Ready encrypting :=
  ⟨rfl, rfl, rfl⟩

/-- **Records.**  Opening gives the data exactly for the records, of a length the library decrypts
    at once and with additional data of 11 bytes, whose decryption is the data, its MAC and a
    padding; sealing encrypts the data, its MAC and the least padding; and opening a sealed record
    gives the data. -/
theorem tls_cbc_records_exact (cbc : CbcCipher) (mac : TlsMac) :
    (∀ (ctx : AeadTlsCtx cbc) (iv : FixedBytes cbc.size) (inp ad data : Bytes) (maxOutLen : Nat),
      ctx.Ready false → inp.length ≤ maxOutLen →
      ((aeadTlsOpen mac ctx maxOutLen iv.bytes inp ad).1 = some data ↔
        ad.length = 11 ∧ (inp.length + cbc.size ≤ INT_MAX ∧ inp.length % cbc.size = 0) ∧
          ∃ p : UInt8, (cbc.decrypt.apply iv inp).2 = mac.plaintext ad data p)) ∧
    (∀ (ctx : AeadTlsCtx cbc) (iv : FixedBytes cbc.size) (data ad : Bytes) (maxOutTagLen : Nat),
      ctx.Ready true → aeadTlsTagLen mac cbc data.length ≤ maxOutTagLen →
      (ad.length = 11 ∧ data.length + cbc.size ≤ INT_MAX → ∃ (out tag : Bytes) (p : UInt8),
          (aeadTlsSealScatter mac ctx maxOutTagLen iv.bytes data ad).1 = some (out, tag) ∧
          out ++ tag = (cbc.encrypt.apply iv (mac.plaintext ad data p)).2 ∧
          (mac.plaintext ad data p).length % cbc.size = 0 ∧
          (∀ q : UInt8, (mac.plaintext ad data q).length % cbc.size = 0 → p ≤ q) ∧
          ∀ (opener : AeadTlsCtx cbc) (maxOutLen : Nat), opener.Ready false →
            (out ++ tag).length ≤ maxOutLen → (out ++ tag).length + cbc.size ≤ INT_MAX →
            (aeadTlsOpen mac opener maxOutLen iv.bytes (out ++ tag) ad).1 = some data) ∧
      (¬ (ad.length = 11 ∧ data.length + cbc.size ≤ INT_MAX) →
        (aeadTlsSealScatter mac ctx maxOutTagLen iv.bytes data ad).1 = none)) := by
  refine ⟨fun ctx iv inp ad data maxOutLen h hout =>
    aeadTlsOpen_eq_some_iff mac h hout iv ad data, ?_⟩
  intro ctx iv data ad maxOutTagLen h hout
  obtain ⟨hseal, hrefuse⟩ := aeadTlsSealScatter_eq mac h hout iv ad
  refine ⟨?_, hrefuse⟩
  rintro ⟨had, hfits⟩
  obtain ⟨out, tag, hsome, hcipher⟩ := hseal ⟨had, hfits⟩
  have hwhole := length_padded_record mac cbc data
    (mac.hmac (ad ++ lengthBytes data.length ++ data)) (mac.length_hmac _)
  refine ⟨out, tag, _, hsome, hcipher, hwhole, fun q => minimalPadding_le mac cbc ad data, ?_⟩
  intro opener maxOutLen hopener hmax hlen
  rw [aeadTlsOpen_eq_some_iff mac hopener hmax]
  have hplain := cbc.blockCipher.decrypt_apply (show cbc.blockCipher.related iv iv from rfl) hwhole
  have hlength := (congrArg length hcipher).trans (cbc.encrypt.length_apply iv hwhole)
  refine ⟨had, ⟨hlen, ?_⟩, minimalPadding mac cbc data.length, ?_⟩
  · rw [hlength]
    exact hwhole
  · rw [hcipher]
    exact hplain

/-- Three bytes are sealed and opened. -/
theorem tls_cbc_records_sample :
    ∃ out tag, (aeadTlsSealScatter summingMac (invertingCtx true) 21 (replicate 8 7) [1, 2, 3]
        (replicate 11 9)).1 = some (out, tag) ∧
      (aeadTlsOpen summingMac (invertingCtx false) (out ++ tag).length (replicate 8 7)
        (out ++ tag) (replicate 11 9)).1 = some [1, 2, 3] := by
  obtain ⟨hseal, -⟩ := (tls_cbc_records_exact invertingCipher summingMac).2 (invertingCtx true)
    ⟨replicate 8 7, rfl⟩ [1, 2, 3] (replicate 11 9) 21 (invertingCtx_ready true)
    (by decide)
  obtain ⟨out, tag, p, hsome, hcipher, hwhole, -, hopen⟩ := hseal (by decide)
  refine ⟨out, tag, hsome, hopen (invertingCtx false) _ (invertingCtx_ready false) le_rfl ?_⟩
  have hp := p.toNat_lt
  rw [hcipher, invertingCipher.encrypt.length_apply _ hwhole, TlsMac.length_plaintext]
  change 3 + 20 + (p.toNat + 1) + 8 ≤ INT_MAX
  unfold INT_MAX
  omega

/-- A record of `INT_MAX - 7` bytes is refused, and so is one whose additional data does not have
    11 bytes, with the right MAC and padding. -/
theorem tls_cbc_record_refused :
    (∃ inp data, (invertingCipher.decrypt.apply ⟨replicate 8 0, rfl⟩ inp).2 =
        summingMac.plaintext (replicate 11 0) data 3 ∧
      (aeadTlsOpen summingMac (invertingCtx false) inp.length (replicate 8 0) inp
        (replicate 11 0)).1 = none) ∧
    ∃ inp data, (invertingCipher.decrypt.apply ⟨replicate 8 0, rfl⟩ inp).2 =
        summingMac.plaintext [] data 3 ∧
      (aeadTlsOpen summingMac (invertingCtx false) inp.length (replicate 8 0) inp []).1 =
        none := by
  have hsealed : ∀ (ad data : Bytes), data.length % 8 = 0 →
      ∃ inp : Bytes, inp.length = data.length + 24 ∧
        (invertingCipher.decrypt.apply ⟨replicate 8 0, rfl⟩ inp).2 =
          summingMac.plaintext ad data 3 := by
    intro ad data hdata
    have hlength : (summingMac.plaintext ad data 3).length = data.length + 24 :=
      TlsMac.length_plaintext summingMac ad data 3
    have hwhole : (summingMac.plaintext ad data 3).length % invertingCipher.size = 0 := by
      change _ % 8 = 0
      omega
    exact ⟨_, (invertingCipher.encrypt.length_apply ⟨replicate 8 0, rfl⟩ hwhole).trans hlength,
      invertingCipher.blockCipher.decrypt_apply rfl hwhole⟩
  constructor
  · obtain ⟨inp, hlength, hplain⟩ := hsealed (replicate 11 0) (replicate 2147483616 0)
      (by rw [length_replicate])
    rw [length_replicate] at hlength
    refine ⟨inp, _, hplain, Option.eq_none_iff_forall_ne_some.mpr fun data hdata => ?_⟩
    obtain ⟨-, ⟨hfits, -⟩, -⟩ := (aeadTlsOpen_eq_some_iff summingMac (invertingCtx_ready false)
      le_rfl ⟨replicate 8 0, rfl⟩ _ data).mp hdata
    rw [hlength] at hfits
    exact absurd hfits (by decide)
  · obtain ⟨inp, hlength, hplain⟩ := hsealed [] [] rfl
    refine ⟨inp, _, hplain, Option.eq_none_iff_forall_ne_some.mpr fun data hdata => ?_⟩
    obtain ⟨had, -⟩ := (aeadTlsOpen_eq_some_iff summingMac (invertingCtx_ready false)
      le_rfl ⟨replicate 8 0, rfl⟩ _ data).mp hdata
    exact absurd had (by decide)

end AwsLc
